import FormScript.Error
import FormScript.Keyed

/-!
# Variables and scopes

A `Frame` binds names to variables. `Scopes` is the frame of the program with isolated frames over
it: reading sees through all of them, writing touches the topmost one alone, and `pop` forgets what
was written there. The program's own frame has a field of its own and cannot be popped. A write in
an isolated frame first makes the variable present there, without a value, and that stays even when
the value then turns out to have the wrong type.
-/

namespace FormScript

/-- A variable: its declared type and its value, if it has one yet. -/
structure Variable where
  type : Ty
  value : Option Value
  deriving DecidableEq, Repr, Inhabited

/-- The variables that were declared or written at one level. -/
structure Frame where
  bindings : List (String × Variable)
  deriving DecidableEq, Repr, Inhabited

namespace Frame

/-- A frame that binds nothing. -/
def empty : Frame :=
  ⟨[]⟩

/-- The variable that a name is bound to. -/
def get? (f : Frame) (name : String) : Option Variable :=
  (Keyed.find? Prod.fst name f.bindings).map Prod.snd

/-- Whether a name is bound. -/
def contains (f : Frame) (name : String) : Bool :=
  (f.get? name).isSome

/-- Binds a name, over an earlier binding if there is one. -/
def insert (f : Frame) (name : String) (v : Variable) : Frame :=
  ⟨Keyed.put Prod.fst (name, v) f.bindings⟩

/-- The variable that a name is bound to, or a fault. -/
def get (f : Frame) (name : String) : Except RuntimeFault Variable :=
  match f.get? name with
  | some v => .ok v
  | none => .error (.undeclared name)

/-- Binds a new name to a variable without a value. -/
def declare (f : Frame) (name : String) (type : Ty) : Except RuntimeFault Frame :=
  if f.contains name then .error (.alreadyDeclared name) else .ok (f.insert name ⟨type, none⟩)

/-- Replaces a variable by one of the same type. -/
def set (f : Frame) (name : String) (v : Variable) : Except RuntimeFault Frame := do
  let declared ← f.get name
  if declared.type = v.type then .ok (f.insert name v)
  else .error (.storeMismatch name declared.type v.type)

end Frame

/-- The frame of a program and the isolated frames over it, the topmost first. -/
structure Scopes where
  program : Frame
  overlays : List Frame
  deriving DecidableEq, Repr, Inhabited

namespace Scopes

/-- No variables, and no isolated frame. -/
def empty : Scopes :=
  ⟨.empty, []⟩

/-- The number of frames. -/
def depth (s : Scopes) : Nat :=
  s.overlays.length + 1

/-- Opens an isolated frame. -/
def push (s : Scopes) : Scopes :=
  { s with overlays := .empty :: s.overlays }

/-- Forgets the topmost isolated frame, if there is one. -/
def pop (s : Scopes) : Scopes :=
  { s with overlays := s.overlays.tail }

/-- The frame that writing touches. -/
def top (s : Scopes) : Frame :=
  s.overlays.headD s.program

/-- Puts another frame in the place of the topmost one. -/
def withTop (s : Scopes) (f : Frame) : Scopes :=
  match s.overlays with
  | [] => { s with program := f }
  | _ :: below => { s with overlays := f :: below }

/-- The visible variable of a name. -/
def get? (s : Scopes) (name : String) : Option Variable :=
  (s.overlays ++ [s.program]).findSome? (·.get? name)

/-- The visible variable of a name, or a fault. -/
def get (s : Scopes) (name : String) : Except RuntimeFault Variable :=
  match s.get? name with
  | some v => .ok v
  | none => .error (.undeclared name)

/-- The value of a name, or a fault. -/
def value (s : Scopes) (name : String) : Except RuntimeFault Value := do
  match (← s.get name).value with
  | some v => .ok v
  | none => .error (.uninitialized name)

/-- Declares a variable in the topmost frame, unless the name is visible already. -/
def declare (s : Scopes) (name : String) (type : Ty) : Except RuntimeFault Scopes :=
  if (s.get? name).isSome then .error (.alreadyDeclared name)
  else (s.top.declare name type).map s.withTop

/-- Writes a variable in the topmost frame. The scopes that are left hold the name there, whether
the value fits or not. -/
def assign (s : Scopes) (name : String) (value : Value) : Except RuntimeFault Unit × Scopes :=
  match s.get name with
  | .error fault => (.error fault, s)
  | .ok declared =>
    let top := if s.top.contains name then s.top else s.top.insert name ⟨declared.type, none⟩
    match top.set name ⟨value.type, some value⟩ with
    | .error fault => (.error fault, s.withTop top)
    | .ok top => (.ok (), s.withTop top)

end Scopes

end FormScript
