/-!
# Lists with keys

Lists in which an entry is found by a key. `Keyed.exchange` puts an entry in the place of the first
one with its key, or at the end if there is none, so keys stand in the order in which they first
came.
-/

namespace FormScript.Keyed

variable {α κ : Type} [DecidableEq κ] (key : α → κ)

/-- The first entry with the given key. -/
def find? (k : κ) (entries : List α) : Option α :=
  entries.find? fun entry => key entry = k

/-- The entries with `entry` among them, and the one whose place it took. -/
def exchange (entry : α) : List α → Option α × List α
  | [] => (none, [entry])
  | first :: rest =>
    if key first = key entry then (some first, entry :: rest)
    else
      let (replaced, rest) := exchange entry rest
      (replaced, first :: rest)

/-- The entries with `entry` among them. -/
def put (entry : α) (entries : List α) : List α :=
  (exchange key entry entries).2

end FormScript.Keyed
