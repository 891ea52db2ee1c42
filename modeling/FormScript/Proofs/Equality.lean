import Mathlib.Data.Nat.Basic
import FormScript.TokenStream

/-!
# Equality of trees

Nodes hold lists of nodes, so whether two of them are equal is decided together with whether two
lists of them are. What a given text is parsed to, and what is left of it, can then be computed.
-/

namespace FormScript

namespace Node

mutual

/-- Two nodes are the same or not. -/
def decEq (a b : Node) : Decidable (a = b) :=
  if h : a.ctorIdx = b.ctorIdx then
    -- Only nodes of one kind are left to compare.
    match a, b, h with
    | int o v, int o' v', _ => decidable_of_iff (o = o' ∧ v = v') (by simp)
    | str o v, str o' v', _ => decidable_of_iff (o = o' ∧ v = v') (by simp)
    | bool o v, bool o' v', _ => decidable_of_iff (o = o' ∧ v = v') (by simp)
    | ident o name, ident o' name', _ => decidable_of_iff (o = o' ∧ name = name') (by simp)
    | unary o op n, unary o' op' n', _ =>
      have := decEq n n'
      decidable_of_iff (o = o' ∧ op = op' ∧ n = n') (by simp)
    | binary o op l r, binary o' op' l' r', _ =>
      have := decEq l l'
      have := decEq r r'
      decidable_of_iff (o = o' ∧ op = op' ∧ l = l' ∧ r = r') (by simp)
    | block o body, block o' body', _ =>
      have := decEqAll body body'
      decidable_of_iff (o = o' ∧ body = body') (by simp)
    | assign o target value, assign o' target' value', _ =>
      have := decEq target target'
      have := decEq value value'
      decidable_of_iff (o = o' ∧ target = target' ∧ value = value') (by simp)
    | declare o name ty none, declare o' name' ty' none, _ =>
      decidable_of_iff (o = o' ∧ name = name' ∧ ty = ty') (by simp)
    | declare o name ty (some init), declare o' name' ty' (some init'), _ =>
      have := decEq init init'
      decidable_of_iff (o = o' ∧ name = name' ∧ ty = ty' ∧ init = init') (by simp)
    | declare _ _ _ none, declare _ _ _ (some _), _ => .isFalse (by simp)
    | declare _ _ _ (some _), declare _ _ _ none, _ => .isFalse (by simp)
    | branch o c p none, branch o' c' p' none, _ =>
      have := decEq c c'
      have := decEq p p'
      decidable_of_iff (o = o' ∧ c = c' ∧ p = p') (by simp)
    | branch o c p (some n), branch o' c' p' (some n'), _ =>
      have := decEq c c'
      have := decEq p p'
      have := decEq n n'
      decidable_of_iff (o = o' ∧ c = c' ∧ p = p' ∧ n = n') (by simp)
    | branch _ _ _ none, branch _ _ _ (some _), _ => .isFalse (by simp)
    | branch _ _ _ (some _), branch _ _ _ none, _ => .isFalse (by simp)
    | loop o c body, loop o' c' body', _ =>
      have := decEq c c'
      have := decEq body body'
      decidable_of_iff (o = o' ∧ c = c' ∧ body = body') (by simp)
    | print o n, print o' n', _ =>
      have := decEq n n'
      decidable_of_iff (o = o' ∧ n = n') (by simp)
    | scan o, scan o', _ => decidable_of_iff (o = o') (by simp)
    | field o kind name ps, field o' kind' name' ps', _ =>
      have := decEqAll ps ps'
      decidable_of_iff (o = o' ∧ kind = kind' ∧ name = name' ∧ ps = ps') (by simp)
    | scalar o key v, scalar o' key' v', _ =>
      have := decEq v v'
      decidable_of_iff (o = o' ∧ key = key' ∧ v = v') (by simp)
    | array o key items, array o' key' items', _ =>
      have := decEqAll items items'
      decidable_of_iff (o = o' ∧ key = key' ∧ items = items') (by simp)
    | form o name body, form o' name' body', _ =>
      have := decEqAll body body'
      decidable_of_iff (o = o' ∧ name = name' ∧ body = body') (by simp)
    | blank o, blank o', _ => decidable_of_iff (o = o') (by simp)
  else .isFalse fun heq => h (congrArg Node.ctorIdx heq)

/-- Two lists hold the same nodes or not. -/
def decEqAll : (as bs : List Node) → Decidable (as = bs)
  | [], [] => .isTrue rfl
  | [], _ :: _ => .isFalse nofun
  | _ :: _, [] => .isFalse nofun
  | a :: as, b :: bs =>
    have := decEq a b
    have := decEqAll as bs
    decidable_of_iff (a = b ∧ as = bs) (by simp)

end

instance : DecidableEq Node :=
  decEq

end Node

deriving instance DecidableEq for TokenStream

instance instDecidableEqResult {ε σ α : Type} [DecidableEq ε] [DecidableEq σ] [DecidableEq α] :
    DecidableEq (EStateM.Result ε σ α)
  | .ok a s, .ok b t => decidable_of_iff (a = b ∧ s = t) (by simp)
  | .error e s, .error f t => decidable_of_iff (e = f ∧ s = t) (by simp)
  | .ok .., .error .. => .isFalse nofun
  | .error .., .ok .. => .isFalse nofun

end FormScript
