import TitleClasses.Text.Basic

/-!
# Similar texts

How alike two texts are. The longest block of code points that stands in both is set apart, then the
longest one of what comes before it in both and of what comes after it in both, and so on until
nothing is shared. Texts are similar when the blocks make up three fifths of them or more.
-/

namespace TitleClasses.Text

/-- The number of code points with which both texts begin. -/
def sharedFront : Text → Text → Nat
  | c :: r, d :: s => if c = d then sharedFront r s + 1 else 0
  | _, _ => 0

/-- A block that stands in two texts: where it begins in the one and in the other, and its length. -/
structure Block where
  left : Nat
  right : Nat
  length : Nat
deriving DecidableEq, Repr

/-- What is left of a text at each of its places, with the place; the text itself is at `n`. -/
def endings (n : Nat) : Text → List (Nat × Text)
  | [] => []
  | c :: r => (n, c :: r) :: endings (n + 1) r

/-- The blocks that begin at each pair of places, by the place in the first text and then by the one in
the second. -/
def blocks (t u : Text) : List Block :=
  (endings 0 t).flatMap fun l => (endings 0 u).map fun r => ⟨l.1, r.1, sharedFront l.2 r.2⟩

/-- The longest block of two texts, of several the first one. -/
def longestBlock (t u : Text) : Block :=
  (blocks t u).foldl (fun best b => if best.length < b.length then b else best) ⟨0, 0, 0⟩

/-- The number of code points in the blocks of two texts, set apart to the depth `n`. -/
def sharedTo : Nat → Text → Text → Nat
  | 0, _, _ => 0
  | n + 1, t, u =>
    let b := longestBlock t u
    if b.length = 0 then 0
    else sharedTo n (t.take b.left) (u.take b.right) + b.length +
      sharedTo n (t.drop (b.left + b.length)) (u.drop (b.right + b.length))

/-- The number of code points in the blocks of two texts. -/
def shared (t u : Text) : Nat := sharedTo t.length t u

/-- Whether two texts are similar. -/
def isSimilar (t u : Text) : Bool := 3 * (t.length + u.length) ≤ 10 * shared t u

/-- Whether one text is at least as similar to a word as another one is, of equally similar ones whether
it does not come before it. -/
def isNearer (word t u : Text) : Bool :=
  let left := shared t word * (u.length + word.length)
  let right := shared u word * (t.length + word.length)
  right < left || (right = left && u.notAfter t)

/-- How many similar texts are told at most. -/
def maxSimilar : Nat := 3

/-- Those of some texts that are most similar to a word, in increasing order. -/
def similarTo (word : Text) (candidates : List Text) : List Text :=
  sorted (((candidates.filter fun t => isSimilar t word).mergeSort (isNearer word)).take maxSimilar)

end TitleClasses.Text
