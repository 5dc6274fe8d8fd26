/-!
# Cutting lists

A list cut at the elements that separate its parts.
-/

namespace QuadAsm.Text

/-- Cuts a list at every element that satisfies `sep`, and drops these elements. There is always at
least one part. -/
def splitAll {α : Type} (sep : α → Bool) : List α → List (List α)
  | [] => [[]]
  | a :: rest =>
    match splitAll sep rest with
    | [] => [[a]]
    | part :: parts => if sep a then [] :: part :: parts else (a :: part) :: parts

end QuadAsm.Text
