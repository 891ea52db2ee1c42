import FormScript.Proofs.Comments
import FormScript.Proofs.Ending

/-!
# Comments are invisible

Tokens and trees are read from a text without its comments, and a compilation depends on its source
through the tree or the error of `parse` alone (`compileWith_congr`). Taking comments out twice is
taking them out once, so a source that comes without its comments gives the same tokens, the same
tree and the same compilation, and fails with the same errors at the same lines
(`comments_invisible`).
-/

namespace FormScript

open Text

/-- Comments are no tokens. -/
theorem tokenize_stripComments (source : String) :
    tokenize (stripComments source) = tokenize source := by
  rw [tokenize, stripComments_stripComments, tokenize]

/-- Comments make no difference to the tree of a source, or to its error. -/
theorem parse_stripComments (source : String) : parse (stripComments source) = parse source := by
  rw [parse, stripComments_stripComments, parse]

/-- Two sources that parse alike compile alike. -/
theorem compileWith_congr {source source' : String} (h : parse source = parse source')
    (options : Options) (outside : Outside) :
    compileWith options outside source = compileWith options outside source' := by
  cases hparse : parse source' with
  | error e => rw [compileWith_of_parse_error (h.trans hparse), compileWith_of_parse_error hparse]
  | ok root => rw [compileWith_of_parse (h.trans hparse), compileWith_of_parse hparse]

/-- A text without its comments holds no `//`, is kept by a second pass, and gives all that the text
gives: tokens, tree, compilation, or the error with its line. Only a text that holds a `//`
changes. -/
theorem comments_invisible (source : String) :
    ¬ ['/', '/'] <:+: (stripComments source).toList ∧
    stripComments (stripComments source) = stripComments source ∧
    (stripComments source = source ↔ ¬ ['/', '/'] <:+: source.toList) ∧
    tokenize (stripComments source) = tokenize source ∧
    parse (stripComments source) = parse source ∧
    ∀ options outside,
      compileWith options outside (stripComments source) = compileWith options outside source := by
  refine ⟨plain_iff_no_slashes.1 (plain_stripComments source), stripComments_stripComments source,
    ?_, tokenize_stripComments source, parse_stripComments source,
    compileWith_congr (parse_stripComments source)⟩
  rw [stripComments_eq_self_iff, plain_iff_no_slashes]

end FormScript
