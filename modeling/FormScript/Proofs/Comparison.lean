import Mathlib.Algebra.Group.Basic
import Mathlib.Data.Bool.Basic
import Mathlib.Data.String.Basic
import FormScript.Arithmetic
import FormScript.Proofs.Bytes

/-!
# Comparing values

Integers, texts and truth values are compared in three different ways. `Value.Before` is the order
that each of them follows, and of two values of one type `==`, `<` and `>` say which of the three
cases it is (`BinaryOp.affirms_less`, `BinaryOp.affirms_greater`, `BinaryOp.affirms_equal`). Texts
are compared character by character. Their bytes give the same order: the first byte of a character
says how many follow, and more of them follow a larger first byte, so the larger of two characters
has the larger byte at the first place where they differ (`Text.lex_utf8EncodeChar`).
-/

namespace FormScript

namespace Text

/-! ## The order of bytes -/

/-- The code points of a text. -/
def codePoints (text : String) : List Nat :=
  text.toList.map Char.toNat

/-- The number of bytes behind the first one of a character. -/
def followers (v : Nat) : Nat :=
  if v ≤ 127 then 0 else if v ≤ 2047 then 1 else if v ≤ 65535 then 2 else 3

/-- What the first byte of a character starts from, by the number of bytes behind it. -/
def leadBase : Nat → Nat
  | 0 => 0
  | 1 => 192
  | 2 => 224
  | _ => 240

/-- The last bytes of a character, six bits in each. -/
def continuation (v : Nat) : Nat → List UInt8
  | 0 => []
  | k + 1 => UInt8.ofNat (v / 64 ^ k % 64 + 128) :: continuation v k

/-- The first byte of a character. -/
def lead (v : Nat) : Nat :=
  v / 64 ^ followers v + leadBase (followers v)

/-- A code point is below `0x110000`. -/
theorem toNat_val_lt (c : Char) : c.val.toNat < 1114112 := by
  have hvalid := c.valid
  unfold UInt32.isValidChar Nat.isValidChar at hvalid
  omega

/-- The bytes of a character are its first byte and the six bits of each other one. -/
theorem utf8EncodeChar_eq (c : Char) : String.utf8EncodeChar c =
    UInt8.ofNat (lead c.val.toNat) :: continuation c.val.toNat (followers c.val.toNat) := by
  have hlt := toNat_val_lt c
  unfold String.utf8EncodeChar lead followers
  generalize c.val.toNat = v at hlt ⊢
  dsimp only
  split_ifs
  · simp [continuation, leadBase]
  · have htop : v / 64 % 32 = v / 64 := Nat.mod_eq_of_lt (by omega)
    simp [continuation, leadBase, htop]
  · have htop : v / 4096 % 16 = v / 4096 := Nat.mod_eq_of_lt (by omega)
    simp [continuation, leadBase, htop]
  · have htop : v / 262144 % 8 = v / 262144 := Nat.mod_eq_of_lt (by omega)
    simp [continuation, leadBase, htop]

/-- The larger of two characters has the larger first byte, or as many bytes and the same first
one. -/
theorem lead_lt_or {v w : Nat} (h : v < w) :
    lead v < lead w ∨ followers v = followers w ∧ v / 64 ^ followers v = w / 64 ^ followers v := by
  unfold lead followers
  split_ifs <;> simp [leadBase] <;> omega

/-- The first byte of a character is a byte. -/
theorem lead_lt_size {v : Nat} (h : v < 1114112) : lead v < UInt8.size := by
  unfold lead followers
  split_ifs <;> simp [leadBase, UInt8.size] <;> omega

/-- Where two numbers agree up to their last digits, the larger one has the larger byte at the first
place where these differ. -/
theorem lex_continuation {v w k : Nat} (h : v < w) (htop : v / 64 ^ k = w / 64 ^ k)
    (bs bs' : List UInt8) :
    List.Lex (· < ·) (continuation v k ++ bs) (continuation w k ++ bs') := by
  induction k with
  | zero =>
    rw [pow_zero, Nat.div_one, Nat.div_one] at htop
    omega
  | succ k ih =>
    rw [pow_succ, ← Nat.div_div_eq_div_mul, ← Nat.div_div_eq_div_mul] at htop
    have hle : v / 64 ^ k ≤ w / 64 ^ k := Nat.div_le_div_right h.le
    rcases hle.lt_or_eq with hlt | heq
    · refine .rel ((UInt8.ofNat_lt_iff_lt ?_ ?_).2 ?_)
      · simp only [UInt8.size]
        omega
      · simp only [UInt8.size]
        omega
      · omega
    · rw [continuation, continuation, heq]
      exact .cons (ih heq)

/-- The bytes of a character come before those of a larger one, whatever follows them. -/
theorem lex_utf8EncodeChar {c d : Char} (h : c < d) (bs bs' : List UInt8) :
    List.Lex (· < ·) (String.utf8EncodeChar c ++ bs) (String.utf8EncodeChar d ++ bs') := by
  have hlt : c.val.toNat < d.val.toNat := h
  rw [utf8EncodeChar_eq, utf8EncodeChar_eq, List.cons_append, List.cons_append]
  rcases lead_lt_or hlt with hlead | ⟨hsame, htop⟩
  · have hsize : ∀ c : Char, lead c.val.toNat < UInt8.size :=
      fun c => lead_lt_size (toNat_val_lt c)
    exact .rel ((UInt8.ofNat_lt_iff_lt (hsize c) (hsize d)).2 hlead)
  · rw [lead, lead, ← hsame, htop]
    exact .cons (lex_continuation hlt htop bs bs')

/-- A text that comes first has the bytes that come first. -/
theorem lex_bytes {s t : String} (h : s < t) : List.Lex (· < ·) (bytes s) (bytes t) := by
  rw [bytes_eq, bytes_eq]
  have hlex : List.Lex (· < ·) s.toList t.toList := String.lt_iff.1 h
  generalize s.toList = cs, t.toList = ds at hlex
  induction hlex with
  | @nil d ds =>
    rw [encode_cons, utf8EncodeChar_eq]
    exact .nil
  | rel hcd => exact lex_utf8EncodeChar hcd _ _
  | cons _ ih => exact List.Lex.append_left _ ih _

/-- A text that comes first has the code points that come first. -/
theorem lex_codePoints {s t : String} (h : s < t) :
    List.Lex (· < ·) (codePoints s) (codePoints t) := by
  have hlex : List.Lex (· < ·) s.toList t.toList := String.lt_iff.1 h
  unfold codePoints
  generalize s.toList = cs, t.toList = ds at hlex
  induction hlex with
  | nil => exact .nil
  | rel hcd => exact .rel hcd
  | cons _ ih => exact .cons ih

/-- A view of texts that keeps their order tells it, since of two texts one comes first. -/
theorem lex_iff {α : Type} {r : α → α → Prop} [Std.Asymm r] {view : String → List α}
    (hview : ∀ {s t}, s < t → List.Lex r (view s) (view t)) {s t : String} :
    List.Lex r (view s) (view t) ↔ s < t := by
  refine ⟨fun hlex => ?_, hview⟩
  rcases lt_trichotomy s t with hlt | rfl | hgt
  · exact hlt
  · exact absurd hlex (irrefl_of (List.Lex r) _)
  · exact absurd hlex (asymm_of (List.Lex r) (hview hgt))

end Text

/-! ## The order of values -/

/-- The order of the values of each type. -/
def Value.Before : Value → Value → Prop
  | .int a, .int b => a < b
  | .string a, .string b => a < b
  | .bool a, .bool b => a < b
  | _, _ => False

namespace BinaryOp

/-- The operators that compare. -/
def comparisons : List BinaryOp :=
  [.equal, .less, .greater]

/-- An operator answers `true` to two values. -/
def Affirms (op : BinaryOp) (a b : Value) : Prop :=
  op.apply a b = .ok (.bool true)

variable {a b : Value}

/-- The operator `<` affirms the order of values. -/
theorem affirms_less : less.Affirms a b ↔ a.Before b := by
  cases a <;> cases b <;>
    simp [Affirms, apply, onInts, onStrings, onBools, Value.Before, Bool.lt_iff]

/-- The operator `>` affirms the converse order. -/
theorem affirms_greater : greater.Affirms a b ↔ b.Before a := by
  cases a <;> cases b <;>
    simp [Affirms, apply, onInts, onStrings, onBools, Value.Before, Bool.lt_iff, and_comm]

/-- The operator `==` affirms equality. -/
theorem affirms_equal : equal.Affirms a b ↔ a = b := by
  cases a <;> cases b <;> simp [Affirms, apply, onInts, onStrings, onBools]

/-- Values of one type can be compared. -/
theorem apply_comparison (htype : a.type = b.type) {op : BinaryOp} (hop : op ∈ comparisons) :
    ∃ r, op.apply a b = .ok (.bool r) := by
  simp only [comparisons, List.mem_cons, List.not_mem_nil, or_false] at hop
  rcases hop with rfl | rfl | rfl <;> cases a <;> cases b <;>
    simp_all [Value.type, apply, onInts, onStrings, onBools]

end BinaryOp

namespace Value

variable {a b c : Value}

/-- No value comes before itself. -/
theorem Before.irrefl (a : Value) : ¬a.Before a := by
  cases a <;> simp [Before]

/-- The order of values is transitive. -/
theorem Before.trans (hab : a.Before b) (hbc : b.Before c) : a.Before c := by
  cases a <;> cases b <;> cases c <;> simp only [Before] at hab hbc ⊢
  · exact Int64.lt_trans hab hbc
  · exact lt_trans hab hbc
  · exact lt_trans hab hbc

/-- Of two different values of one type one comes before the other. -/
theorem before_or_eq_or_before (h : a.type = b.type) : a.Before b ∨ a = b ∨ b.Before a := by
  cases a <;> cases b <;> simp only [type, reduceCtorEq] at h
  next a b =>
    simp only [Before, int.injEq, Int64.lt_iff_toInt_lt, ← Int64.toInt_inj]
    omega
  next a b => simpa only [Before, string.injEq] using lt_trichotomy a b
  next a b => simpa only [Before, bool.injEq] using lt_trichotomy a b

end Value

namespace BinaryOp

variable {a b : Value}

/-- No two comparisons say yes to the same values. -/
theorem eq_of_affirms {op op' : BinaryOp} (hop : op ∈ comparisons) (hop' : op' ∈ comparisons)
    (h : op.Affirms a b) (h' : op'.Affirms a b) : op = op' := by
  have hasymm : a.Before b → ¬b.Before a := fun hab hba => Value.Before.irrefl a (hab.trans hba)
  simp only [comparisons, List.mem_cons, List.not_mem_nil, or_false] at hop hop'
  rcases hop with rfl | rfl | rfl <;> rcases hop' with rfl | rfl | rfl <;>
    simp only [affirms_less, affirms_greater, affirms_equal] at h h' <;> grind [Value.Before.irrefl]

/-- Of two values of one type, one operator of comparison is affirmed and no other. -/
theorem existsUnique_affirms (htype : a.type = b.type) :
    ∃! op, op ∈ comparisons ∧ op.Affirms a b := by
  obtain ⟨op, hop, haffirms⟩ : ∃ op ∈ comparisons, op.Affirms a b := by
    rcases Value.before_or_eq_or_before htype with hless | hequal | hgreater
    · exact ⟨less, by simp [comparisons], affirms_less.2 hless⟩
    · exact ⟨equal, by simp [comparisons], affirms_equal.2 hequal⟩
    · exact ⟨greater, by simp [comparisons], affirms_greater.2 hgreater⟩
  exact ⟨op, ⟨hop, haffirms⟩, fun op' h => eq_of_affirms h.1 hop h.2 haffirms⟩

end BinaryOp

/-- Comparisons are strict total orders. Of two values of one type exactly one of `==`, `<` and `>`
is true and none of them fails. What is larger is what the other one is smaller than, what is equal
is the same, and `<` is transitive. Texts are in the order of their bytes, which is the order of
their code points. -/
theorem comparisons_order_values {a b : Value} (h : a.type = b.type) :
    (∀ op ∈ BinaryOp.comparisons, ∃ r, op.apply a b = .ok (.bool r)) ∧
    (∃! op, op ∈ BinaryOp.comparisons ∧ op.Affirms a b) ∧
    (BinaryOp.greater.Affirms a b ↔ BinaryOp.less.Affirms b a) ∧
    (BinaryOp.equal.Affirms a b ↔ a = b) ∧
    (∀ c, BinaryOp.less.Affirms a b → BinaryOp.less.Affirms b c → BinaryOp.less.Affirms a c) ∧
    ∀ s t, (BinaryOp.less.Affirms (.string s) (.string t) ↔
        List.Lex (· < ·) (Text.bytes s) (Text.bytes t)) ∧
      (List.Lex (· < ·) (Text.bytes s) (Text.bytes t) ↔
        List.Lex (· < ·) (Text.codePoints s) (Text.codePoints t)) := by
  refine ⟨fun op => BinaryOp.apply_comparison h, BinaryOp.existsUnique_affirms h, ?_,
    BinaryOp.affirms_equal, ?_, ?_⟩
  · rw [BinaryOp.affirms_greater, BinaryOp.affirms_less]
  · intro c
    simp only [BinaryOp.affirms_less]
    exact Value.Before.trans
  · intro s t
    rw [BinaryOp.affirms_less, Text.lex_iff Text.lex_bytes, Text.lex_iff Text.lex_codePoints]
    exact ⟨Iff.rfl, Iff.rfl⟩

/-- A ligature from the end of the first plane and a picture from the next one, which UTF-16 would
put in the other order. -/
theorem comparisons_order_values_across_planes :
    (∃! op, op ∈ BinaryOp.comparisons ∧ op.Affirms (.string "\ufb01") (.string "😀")) ∧
    BinaryOp.less.Affirms (.string "\ufb01") (.string "😀") ∧
    List.Lex (· < ·) (Text.bytes "\ufb01") (Text.bytes "😀") := by
  have hbefore : "\ufb01" < "😀" := by decide
  have hless : BinaryOp.less.Affirms (.string "\ufb01") (.string "😀") :=
    BinaryOp.affirms_less.2 hbefore
  obtain ⟨-, hunique, -, -, -, htexts⟩ :=
    @comparisons_order_values (.string "\ufb01") (.string "😀") rfl
  exact ⟨hunique, hless, (htexts _ _).1.1 hless⟩

end FormScript
