import FormScript.Arithmetic
import FormScript.Scope
import FormScript.Proofs.Keyed

/-!
# Isolated frames as copies

An isolated frame holds only what was declared or written in it, and reading falls through to the
frames below. One can think of it as a copy of all variables that are visible where it is opened. A
`Table` says of each name which variable it stands for, with rules of its own for declaring, reading
and writing, and `Copies` is a stack of tables of which only the topmost is ever looked at. Both are
a `VariableStore`, which serves `Request`s one after the other. No requests tell the two apart up to
the first write that fails (`overlays_answer_as_copies`): `Mirrors` says that each table shows what
is visible at its level, and every request but a failed write keeps to it. A failed write leaves a
variable without a value in the isolated frame, and a table does not know of it.
-/

namespace FormScript

/-- Behind an insertion the name stands for what was inserted, and all others for what they did. -/
theorem Frame.get?_insert (f : Frame) (name : String) (v : Variable) (other : String) :
    (f.insert name v).get? other = if name = other then some v else f.get? other := by
  simp only [get?, insert, Keyed.find?_put]
  split <;> rfl

/-! ## Stores of variables -/

/-- A store of variables with levels. Writing leaves a store behind also when it fails. -/
structure VariableStore (σ : Type) where
  empty : σ
  declare : σ → String → Ty → Except RuntimeFault σ
  get : σ → String → Except RuntimeFault Variable
  value : σ → String → Except RuntimeFault Value
  assign : σ → String → Value → Except RuntimeFault Unit × σ
  push : σ → σ
  pop : σ → σ

/-- Something that is asked of a store, at a line of the source. -/
inductive Request where
  | declare (line : Nat) (name : String) (type : Ty)
  | get (line : Nat) (name : String)
  | value (line : Nat) (name : String)
  | assign (line : Nat) (name : String) (value : Value)
  | push
  | pop
  deriving DecidableEq, Repr

/-- What a store answers. -/
inductive Answer where
  | done
  | variable (v : Variable)
  | value (v : Value)
  deriving DecidableEq, Repr

/-- Whether an answer says that a write has failed. -/
def Request.failsWriting : Request → Except RuntimeError Answer → Bool
  | .assign _ _ _, .error _ => true
  | _, _ => false

namespace VariableStore

variable {σ : Type} (store : VariableStore σ)

/-- The answer to a request and the store behind it. -/
def serve (s : σ) : Request → Except RuntimeError Answer × σ
  | .declare line name type =>
    match store.declare s name type with
    | .ok s => (.ok .done, s)
    | .error fault => (.error ⟨line, fault⟩, s)
  | .get line name => (locate line ((store.get s name).map .variable), s)
  | .value line name => (locate line ((store.value s name).map .value), s)
  | .assign line name value =>
    (locate line ((store.assign s name value).1.map fun _ => .done), (store.assign s name value).2)
  | .push => (.ok .done, store.push s)
  | .pop => (.ok .done, store.pop s)

/-- The answers to requests, up to and with the first write that fails. -/
def answers : List Request → σ → List (Except RuntimeError Answer)
  | [], _ => []
  | request :: requests, s =>
    let answer := (store.serve s request).1
    answer :: if request.failsWriting answer then [] else answers requests (store.serve s request).2

end VariableStore

/-- The program's frame with isolated frames over it, as a store. -/
def Scopes.store : VariableStore Scopes :=
  ⟨empty, declare, get, value, assign, push, pop⟩

/-- The variable that each name stands for, if it stands for one. -/
structure Table where
  lookup : String → Option Variable

namespace Table

/-- No name stands for a variable. -/
def empty : Table :=
  ⟨fun _ => none⟩

/-- Another variable for a name. -/
def put (t : Table) (name : String) (v : Variable) : Table :=
  ⟨fun other => if name = other then some v else t.lookup other⟩

/-- A name that stands for nothing gets a variable without a value. -/
def declare (t : Table) (name : String) (type : Ty) : Except RuntimeFault Table :=
  match t.lookup name with
  | some _ => .error (.alreadyDeclared name)
  | none => .ok (t.put name ⟨type, none⟩)

/-- The variable of a name that stands for one. -/
def get (t : Table) (name : String) : Except RuntimeFault Variable :=
  match t.lookup name with
  | some v => .ok v
  | none => .error (.undeclared name)

/-- The value of a name whose variable has one. -/
def value (t : Table) (name : String) : Except RuntimeFault Value :=
  match t.lookup name with
  | some ⟨_, some v⟩ => .ok v
  | some ⟨_, none⟩ => .error (.uninitialized name)
  | none => .error (.undeclared name)

/-- A variable gets a value of its own type. -/
def assign (t : Table) (name : String) (value : Value) : Except RuntimeFault Table :=
  match t.lookup name with
  | none => .error (.undeclared name)
  | some v =>
    if v.type = value.type then .ok (t.put name ⟨v.type, some value⟩)
    else .error (.storeMismatch name v.type value.type)

end Table

/-- Tables over each other. -/
structure Copies where
  top : Table
  below : List Table

namespace Copies

/-- A single table without variables. -/
def empty : Copies :=
  ⟨.empty, []⟩

/-- Puts a copy of the topmost table on top. -/
def push (c : Copies) : Copies :=
  ⟨c.top, c.top :: c.below⟩

/-- Drops the topmost table, unless it is the last one. -/
def pop (c : Copies) : Copies :=
  match c.below with
  | [] => c
  | top :: below => ⟨top, below⟩

/-- Declares a variable in the topmost table. -/
def declare (c : Copies) (name : String) (type : Ty) : Except RuntimeFault Copies :=
  (c.top.declare name type).map fun top => { c with top }

/-- Writes a variable in the topmost table. What is refused leaves no trace. -/
def assign (c : Copies) (name : String) (value : Value) : Except RuntimeFault Unit × Copies :=
  match c.top.assign name value with
  | .ok top => (.ok (), { c with top })
  | .error fault => (.error fault, c)

/-- Tables over each other, as a store. -/
def store : VariableStore Copies :=
  ⟨empty, declare, fun c => c.top.get, fun c => c.top.value, assign, push, pop⟩

end Copies

/-! ## What is visible -/

namespace Scopes

/-- A new frame hides nothing. -/
theorem get?_push (s : Scopes) (name : String) : s.push.get? name = s.get? name :=
  rfl

/-- What is visible behind a write: the written variable, and all others as before. -/
theorem get?_withTop_insert (s : Scopes) (name : String) (v : Variable) (other : String) :
    (s.withTop (s.top.insert name v)).get? other =
      if name = other then some v else s.get? other := by
  obtain ⟨program, overlays⟩ := s
  cases overlays with
  | nil => simp [withTop, top, get?, Frame.get?_insert]
  | cons f below =>
    by_cases hname : name = other <;>
      simp [withTop, top, get?, List.findSome?_cons, Frame.get?_insert, hname]

/-- A variable of the topmost frame is the visible one. -/
theorem get?_of_top {s : Scopes} {name : String} {v : Variable} (h : s.top.get? name = some v) :
    s.get? name = some v := by
  obtain ⟨program, overlays⟩ := s
  cases overlays with
  | nil => simpa [get?, top] using h
  | cons f below => simp_all [get?, top]

@[simp] theorem top_withTop (s : Scopes) (f : Frame) : (s.withTop f).top = f := by
  obtain ⟨program, overlays⟩ := s
  cases overlays <;> rfl

@[simp] theorem withTop_withTop (s : Scopes) (f g : Frame) :
    (s.withTop f).withTop g = s.withTop g := by
  obtain ⟨program, overlays⟩ := s
  cases overlays <;> rfl

end Scopes

/-- A table shows the variables that are visible in scopes. -/
def Table.Shows (table : Table) (s : Scopes) : Prop :=
  ∀ name, table.lookup name = s.get? name

/-- Each table shows what is visible at its level. -/
inductive Mirrors : Scopes → Copies → Prop where
  | program {program : Frame} {table : Table} (shows : table.Shows ⟨program, []⟩) :
    Mirrors ⟨program, []⟩ ⟨table, []⟩
  | overlay {program frame : Frame} {frames : List Frame} {table copied : Table}
      {tables : List Table} (below : Mirrors ⟨program, frames⟩ ⟨copied, tables⟩)
      (shows : table.Shows ⟨program, frame :: frames⟩) :
    Mirrors ⟨program, frame :: frames⟩ ⟨table, copied :: tables⟩

namespace Mirrors

variable {s : Scopes} {c : Copies} {name : String}

/-- A table without variables shows what is visible before any declaration. -/
theorem empty : Mirrors .empty .empty :=
  .program fun _ => rfl

/-- The topmost table shows all that is visible. -/
theorem shows (h : Mirrors s c) : c.top.Shows s := by
  cases h with
  | program shows | overlay _ shows => exact shows

/-- An isolated frame starts out as a copy of the topmost table. -/
theorem push (h : Mirrors s c) : Mirrors s.push c.push :=
  .overlay h fun name => (h.shows name).trans (s.get?_push name).symm

/-- Behind an isolated frame the table below it is looked at again. -/
theorem pop (h : Mirrors s c) : Mirrors s.pop c.pop := by
  cases h with
  | program shows => exact .program shows
  | overlay below _ => exact below

/-- The topmost frame can change if its table is replaced by one that shows the change. -/
theorem withTop {f : Frame} {table : Table} (h : Mirrors s c) (hshows : table.Shows (s.withTop f)) :
    Mirrors (s.withTop f) { c with top := table } := by
  cases h with
  | program _ => exact .program hshows
  | overlay below _ => exact .overlay below hshows

/-- What is inserted into the topmost frame and put into the topmost table shows alike. -/
theorem insert (h : Mirrors s c) (name : String) (v : Variable) :
    Mirrors (s.withTop (s.top.insert name v)) { c with top := c.top.put name v } := by
  refine h.withTop fun other => ?_
  rw [s.get?_withTop_insert, ← h.shows]
  rfl

/-! ## What the requests do -/

/-- A variable is found in both or in neither. -/
theorem get_eq (h : Mirrors s c) : s.get name = c.top.get name := by
  have hlookup : c.top.lookup name = s.get? name := h.shows name
  cases hname : s.get? name with
  | none => simp only [Scopes.get, Table.get, hlookup, hname]
  | some v => simp only [Scopes.get, Table.get, hlookup, hname]

/-- A value is found in both, or its absence has the same reason. -/
theorem value_eq (h : Mirrors s c) : s.value name = c.top.value name := by
  rw [Scopes.value, Scopes.get, Table.value, h.shows]
  cases s.get? name with
  | none => rfl
  | some v =>
    obtain ⟨type, value⟩ := v
    cases value <;> rfl

/-- A declaration is refused by both or made by both. -/
theorem declare (h : Mirrors s c) (name : String) (type : Ty) :
    (s.declare name type = .error (.alreadyDeclared name) ∧
      c.declare name type = .error (.alreadyDeclared name)) ∨
    ∃ s' c', s.declare name type = .ok s' ∧ c.declare name type = .ok c' ∧ Mirrors s' c' := by
  cases hv : s.get? name with
  | some v =>
    left
    have htable : c.top.lookup name = some v := (h.shows name).trans hv
    simp [Scopes.declare, Copies.declare, Table.declare, hv, htable, Except.map]
  | none =>
    right
    have htable : c.top.lookup name = none := (h.shows name).trans hv
    have htop : s.top.get? name = none := by
      cases htop : s.top.get? name with
      | none => rfl
      | some v => simp [Scopes.get?_of_top htop] at hv
    refine ⟨_, _, ?_, ?_, h.insert name ⟨type, none⟩⟩
    · simp [Scopes.declare, Frame.declare, Frame.contains, hv, htop, Except.map]
    · simp [Copies.declare, Table.declare, htable, Except.map]

/-- Behind the first half of a write the topmost frame has the variable with its declared type, and
the second half shows no more than the value. -/
theorem shadow {declared : Variable} (h : Mirrors s c) (hv : s.get? name = some declared) :
    ∃ top d, (if s.top.contains name then s.top
        else s.top.insert name ⟨declared.type, none⟩) = top ∧
      top.get? name = some d ∧ d.type = declared.type ∧
      ∀ v, Mirrors (s.withTop (top.insert name v)) { c with top := c.top.put name v } := by
  cases htop : s.top.get? name with
  | some d =>
    have hd : some d = some declared := (Scopes.get?_of_top htop).symm.trans hv
    refine ⟨s.top, d, by simp [Frame.contains, htop], htop, by simp_all, ?_⟩
    exact h.insert name
  | none =>
    refine ⟨s.top.insert name ⟨declared.type, none⟩, ⟨declared.type, none⟩,
      by simp [Frame.contains, htop], by simp [Frame.get?_insert], rfl,
      fun v => h.withTop fun other => ?_⟩
    -- The written variable covers the one that the first half has put into the frame.
    have hover := (s.withTop (s.top.insert name ⟨declared.type, none⟩)).get?_withTop_insert
      name v other
    rw [Scopes.top_withTop, Scopes.withTop_withTop] at hover
    rw [hover, Scopes.get?_withTop_insert, ← h.shows]
    by_cases hname : name = other <;> simp [Table.put, hname]

/-- A write fails in both with the same fault, or is made by both. -/
theorem assign (h : Mirrors s c) (name : String) (value : Value) :
    (∃ fault, (s.assign name value).1 = .error fault ∧ (c.assign name value).1 = .error fault) ∨
    (s.assign name value).1 = .ok () ∧ (c.assign name value).1 = .ok () ∧
      Mirrors (s.assign name value).2 (c.assign name value).2 := by
  cases hv : s.get? name with
  | none =>
    left
    have htable : c.top.lookup name = none := (h.shows name).trans hv
    refine ⟨.undeclared name, ?_⟩
    simp [Scopes.assign, Scopes.get, hv, Copies.assign, Table.assign, htable]
  | some declared =>
    have htable : c.top.lookup name = some declared := (h.shows name).trans hv
    have hget : s.get name = .ok declared := by rw [Scopes.get, hv]
    obtain ⟨top, d, htop, hd, htype, hwritten⟩ := h.shadow hv
    rw [Scopes.assign, hget, Copies.assign, Table.assign, htable]
    dsimp only
    rw [htop]
    by_cases hvalue : declared.type = value.type
    · right
      have hset : top.set name ⟨value.type, some value⟩ =
          .ok (top.insert name ⟨value.type, some value⟩) := by
        simp [Frame.set, Frame.get, hd, htype, hvalue, bind, Except.bind]
      rw [hset, if_pos hvalue, hvalue]
      exact ⟨rfl, rfl, hwritten _⟩
    · left
      have hset : top.set name ⟨value.type, some value⟩ =
          .error (.storeMismatch name declared.type value.type) := by
        simp [Frame.set, Frame.get, hd, htype, hvalue, bind, Except.bind]
      rw [hset, if_neg hvalue]
      exact ⟨_, rfl, rfl⟩

/-- A request is answered alike, and if it is no failed write, the stores go on showing the same. -/
theorem serve (h : Mirrors s c) (request : Request) :
    (Scopes.store.serve s request).1 = (Copies.store.serve c request).1 ∧
    (request.failsWriting (Scopes.store.serve s request).1 = false →
      Mirrors (Scopes.store.serve s request).2 (Copies.store.serve c request).2) := by
  cases request with
  | declare line name type =>
    simp only [VariableStore.serve, Scopes.store, Copies.store]
    rcases h.declare name type with ⟨hs, hc⟩ | ⟨s', c', hs, hc, h'⟩
    · rw [hs, hc]
      exact ⟨rfl, fun _ => h⟩
    · rw [hs, hc]
      exact ⟨rfl, fun _ => h'⟩
  | get line name =>
    refine ⟨?_, fun _ => h⟩
    simp only [VariableStore.serve, Scopes.store, Copies.store, h.get_eq]
  | value line name =>
    refine ⟨?_, fun _ => h⟩
    simp only [VariableStore.serve, Scopes.store, Copies.store, h.value_eq]
  | assign line name value =>
    simp only [VariableStore.serve, Scopes.store, Copies.store]
    rcases h.assign name value with ⟨fault, hs, hc⟩ | ⟨hs, hc, h'⟩
    · rw [hs, hc]
      exact ⟨rfl, nofun⟩
    · rw [hs, hc]
      exact ⟨rfl, fun _ => h'⟩
  | push => exact ⟨rfl, fun _ => h.push⟩
  | pop => exact ⟨rfl, fun _ => h.pop⟩

/-- Scopes answer as the tables do that show what is visible at each level. -/
theorem answers_eq (h : Mirrors s c) (requests : List Request) :
    Scopes.store.answers requests s = Copies.store.answers requests c := by
  induction requests generalizing s c with
  | nil => rfl
  | cons request requests ih =>
    obtain ⟨heq, hnext⟩ := h.serve request
    simp only [VariableStore.answers, ← heq]
    split
    · rfl
    · rw [ih (hnext (Bool.eq_false_iff.2 ‹_›))]

end Mirrors

/-- Isolated frames answer as full copies of the visible variables do, whatever is asked of them, up
to and with the first write that fails. -/
theorem overlays_answer_as_copies (requests : List Request) :
    Scopes.store.answers requests Scopes.store.empty =
      Copies.store.answers requests Copies.store.empty :=
  Mirrors.empty.answers_eq requests

-- What a failed write leaves in an isolated frame hides the value below it.
example :
    ((Scopes.mk ⟨[("x", ⟨.int, some (.int 1)⟩)]⟩ []).push.assign "x" (.bool true)).2.value "x" =
    .error (.uninitialized "x") :=
  rfl

end FormScript
