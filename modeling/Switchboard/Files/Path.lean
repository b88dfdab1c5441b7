import Switchboard.Text.Blank
import Switchboard.Text.Utf8
/-!
Paths. A path is a list of octets, which need not be text. Nothing is looked up in a file tree and nothing is
normalised: `join` puts a path after another one, and the `parent?` of a path is what stands before its last
name. Main statement: a parent is shorter than its path, so `ancestors` ends.
-/
namespace Switchboard

/-- The octet between two names of a path. -/
def slash : UInt8 := 47

/-- The octet of which the names of the directory itself and of the one above it consist. -/
def dot : UInt8 := 46

/-- A path, or a part of it, from its last octet to its first. -/
abbrev Backward := Bytes

namespace Backward

/-- Without separators and single dots at the end. The root stays, and so does a dot that stands
first. -/
def dropSlack : Backward → Backward
  | [] => []
  | [b] => [b]
  | b :: c :: rest =>
    if b = slash ∨ (b = dot ∧ c = slash) then dropSlack (c :: rest) else b :: c :: rest

/-- Without the last name. -/
def dropName (bs : Backward) : Backward := bs.dropWhile (· ≠ slash)

/-- What stands before the last name, if there is a name. -/
def parent? (bs : Backward) : Option Backward :=
  match dropSlack bs with
  | [] => none
  | b :: rest => if b = slash then none else some (dropSlack (dropName (b :: rest)))

theorem length_dropSlack_le (bs : Backward) : (dropSlack bs).length ≤ bs.length := by
  fun_induction dropSlack bs with
  | case1 | case2 | case4 => exact Nat.le_refl _
  | case3 b c rest _ ih => exact Nat.le_trans ih (Nat.le_succ _)

/-- A separator stays at the end only if it is the root. -/
theorem eq_nil_of_dropSlack_eq_cons {bs rest : Backward} (h : dropSlack bs = slash :: rest) :
    rest = [] := by
  fun_induction dropSlack bs <;> simp_all

theorem length_dropName_lt {b : UInt8} {bs : Backward} (h : b ≠ slash) :
    (dropName (b :: bs)).length < (b :: bs).length := by
  have := (List.dropWhile_suffix (· ≠ slash) (l := bs)).length_le
  simp [dropName, h] at this ⊢
  omega

theorem length_parent?_lt {bs up : Backward} (h : parent? bs = some up) : up.length < bs.length := by
  unfold parent? at h
  have hle := length_dropSlack_le bs
  split at h
  · simp at h
  · rename_i b rest hkept
    rw [hkept] at hle
    split at h
    · simp at h
    · rename_i hb
      cases h
      have := length_dropSlack_le (dropName (b :: rest))
      have : (dropName (b :: rest)).length < (b :: rest).length := length_dropName_lt hb
      omega

/-- The path, its parent, the parent of that, and so on. -/
def ancestors (bs : Backward) : List Backward :=
  bs :: match _h : parent? bs with
    | none => []
    | some up => ancestors up
termination_by bs.length
decreasing_by exact length_parent?_lt _h

end Backward

/-- The name of a file or a directory in the directory that holds it. -/
abbrev FileName := Bytes

/-- The greatest size of a name. -/
def FileName.limit : Nat := 255

/-- A path. -/
structure Path where
  octets : Bytes
  deriving DecidableEq, Repr

namespace Path

/-- The greatest size of a path that can be followed. -/
def limit : Nat := 4095

/-- The path that a text writes. -/
def ofText (s : String) : Path := ⟨Utf8.encode s⟩

/-- The path as it is shown. -/
def text (p : Path) : String := Utf8.lossy p.octets

/-- The path that is given from its end. -/
def ofBackward (bs : Backward) : Path := ⟨bs.reverse⟩

/-- The path from its end. -/
def backward (p : Path) : Backward := p.octets.reverse

/-- Whether the path starts at the root. -/
def isAbsolute (p : Path) : Bool := p.octets.head? = some slash

/-- A path after another one. A path that starts at the root stands for itself. -/
def join (p q : Path) : Path :=
  if q.isAbsolute then q
  else if p.octets.isEmpty ∨ p.backward.head? = some slash then ⟨p.octets ++ q.octets⟩
  else ⟨p.octets ++ slash :: q.octets⟩

/-- The path before the last name, if there is a name. -/
def parent? (p : Path) : Option Path := p.backward.parent?.map ofBackward

/-- The path, its parent, the parent of that, and so on. -/
def ancestors (p : Path) : List Path := p.backward.ancestors.map ofBackward

/-- What stands between the separators. -/
def segments (p : Path) : List FileName := Text.splitOn slash p.octets

/-- The last segment that is not empty. A dot counts. -/
def lastName? (p : Path) : Option FileName := (p.segments.filter (· ≠ [])).getLast?

/-- Whether the last name in the path stands for a directory by one or two dots. -/
def endsInDots (p : Path) : Bool :=
  p.lastName? = some [dot] ∨ p.lastName? = some [dot, dot]

/-- The path of the names that lead from the root to a place. -/
def ofNames (names : List FileName) : Path := ⟨slash :: [slash].intercalate names⟩

end Path

end Switchboard
