import Svr4.Library.Record

/-! The stream as fragments, and fragments as records: what is to be kept on
both sides of the line. -/

namespace Svr4.Record

/-- Whether a fragment is the last of its record, and its bytes. -/
abbrev Fragment := Bool × List Byte

def Fragment.frame (f : Fragment) : List Byte := htonl (headerWord f.2.length f.1) ++ f.2

def frames (fs : List Fragment) : List Byte := fs.flatMap Fragment.frame

/-- The records of some fragments when one has begun, and what the last record
has of those that do not end it. -/
def records : List Byte → List Fragment → List (List Byte) × List Byte
  | begun, [] => ([], begun)
  | begun, (true, data) :: fs => ((begun ++ data) :: (records [] fs).1, (records [] fs).2)
  | begun, (false, data) :: fs => records (begun ++ data) fs

/-- Lengths that leave the top bit of a header. -/
def Short (fs : List Fragment) : Prop := ∀ f ∈ fs, f.2.length < LAST_FRAG

@[simp] theorem frames_cons (f : Fragment) (fs : List Fragment) :
    frames (f :: fs) = f.frame ++ frames fs := List.flatMap_cons

theorem frames_snoc (fs : List Fragment) (f : Fragment) : frames (fs ++ [f]) = frames fs ++ f.frame := by
  simp [frames]

theorem htonl_length (n : Nat) : (htonl n).length = 4 := rfl

theorem ntohl_htonl {n : Nat} (small : n < 2 ^ 32) : ntohl (htonl n) = n := by
  simp only [ntohl, htonl, List.foldl_cons, List.foldl_nil, BitVec.toNat_ofNat]
  omega

theorem records_snoc (fs : List Fragment) (f : Fragment) : ∀ begun,
    records begun (fs ++ [f]) = if f.1 then ((records begun fs).1 ++ [(records begun fs).2 ++ f.2], [])
      else ((records begun fs).1, (records begun fs).2 ++ f.2) := by
  induction fs with
  | nil =>
    intro begun
    obtain ⟨last, data⟩ := f
    cases last <;> rfl
  | cons g fs ih =>
    intro begun
    obtain ⟨last, data⟩ := g
    cases last with
    | false => exact ih (begun ++ data)
    | true =>
      simp only [List.cons_append, records, ih []]
      split <;> rfl

theorem records_eq (fs : List Fragment) : ∀ begun : List Byte,
    records begun fs = match records [] fs with
      | ([], rest) => ([], begun ++ rest)
      | (first :: more, rest) => ((begun ++ first) :: more, rest) := by
  induction fs with
  | nil =>
    intro begun
    simp [records]
  | cons g fs ih =>
    intro begun
    obtain ⟨last, data⟩ := g
    cases last with
    | true => simp [records]
    | false =>
      simp only [records, List.nil_append]
      rw [ih (begun ++ data), ih data]
      rcases records [] fs with ⟨_ | ⟨first, more⟩, rest⟩
      · simp only [List.append_assoc]
      · simp only [List.append_assoc]

theorem records_begun {fs : List Fragment} {begun first rest : List Byte} {more : List (List Byte)}
    (found : records begun fs = (first :: more, rest)) :
    ∃ tail, first = begun ++ tail ∧ records [] fs = (tail :: more, rest) := by
  rw [records_eq] at found
  rcases known : records [] fs with ⟨_ | ⟨tail, more'⟩, rest'⟩
  · rw [known] at found
    cases found
  · rw [known] at found
    simp only [Prod.mk.injEq, List.cons.injEq] at found
    obtain ⟨⟨rfl, rfl⟩, rfl⟩ := found
    exact ⟨tail, rfl, rfl⟩

end Svr4.Record
