import YololChip.Proofs.KeptLines
import YololChip.Proofs.Readings
import YololChip.Proofs.Soundness

/-!
# Programs through documents and back

A program that was read, whether from a document or from source, can be written as a
document unless it nests too deep for one. Reading that document gives a program from
a document back as it was, and a program from source without its locations, its
errors and its empty comments. Writing what was read writes the same documents again.
-/

namespace YololChip

namespace Program

/-- A line that is kept of a text is portable and has the number of the text, also if it is a blank
one in the place of a line that is refused. -/
theorem Kept.portable {file text : String} {number : Nat} {line : Line}
    {errors : List (Int × SourceError)} (kept : Kept file number text line errors) :
    line.Portable ∧ line.number = number := by
  cases kept with
  | read parsed => exact Line.portable_of_parse parsed
  | refused => exact ⟨⟨[], [], "", trivial, .absent, rfl⟩, rfl⟩

/-- The lines that are kept are portable and numbered in turn. Those that were refused are kept
as blank lines, which are portable too. -/
theorem KeptFrom.portable {file : String} {number : Nat} {texts : List String} {lines : List Line}
    {errors : List (Int × SourceError)} (kept : KeptFrom file number texts lines errors) :
    (∀ line ∈ lines, line.Portable) ∧ Line.NumberedFrom number lines := by
  induction kept with
  | nil => exact ⟨by simp, trivial⟩
  | cons first _ inductionHypothesis =>
    obtain ⟨portable, numbered⟩ := inductionHypothesis
    obtain ⟨portableLine, same⟩ := first.portable
    exact ⟨List.forall_mem_cons.mpr ⟨portableLine, portable⟩, same, numbered⟩

theorem portable_of_parse {text file : String} {p : Program} (read : parse text file = .ok p) :
    p.Portable := by
  obtain ⟨most, kept⟩ := keptFrom_of_parse read
  obtain ⟨portable, numbered⟩ := kept.portable
  exact ⟨portable, numbered, kept.length ▸ most⟩

end Program

namespace Cylon

/-- Where a program came from: a document, or a source that does not nest too deep for a
document. Lines of a source that could not be read are no hindrance; they are carried as blank
ones. -/
def WasRead (p : Program) : Prop :=
  (∃ source, read source = .ok p) ∨ (∃ source file, Program.parse source file = .ok p) ∧ Fits p

/-- A program that was read is portable and has a document that is not too deep. Of a program
from source the depth is asked for, as it has no document yet. -/
theorem portable_of_wasRead {p : Program} (origin : WasRead p) : p.Portable ∧ Fits p := by
  rcases origin with ⟨source, found⟩ | ⟨⟨source, file, parsed⟩, fits⟩
  · obtain ⟨portable, _, fits⟩ := read_text found
    exact ⟨portable, fits⟩
  · exact ⟨Program.portable_of_parse parsed, fits⟩

/-- A program that was read is written as a document, and the document is read as a program
with the same lines, but for locations and empty comments. A program from a document
comes back as it was. At every indentation what comes back is written as the same
document.

Proof: the program is portable, and what a document carries of it is what comes back. -/
theorem read_write_of_wasRead {p : Program} (origin : WasRead p) (indent : Option Int) :
    ∃ document back, write p indent = .ok document ∧ read document = .ok back ∧
      back.lines = p.lines.map (·.withoutEmptyComments.bare) ∧
      ((∃ source, read source = .ok p) → back = p) ∧
      ∀ other, write back other = write p other := by
  obtain ⟨portable, fits⟩ := portable_of_wasRead origin
  obtain ⟨document, written, readBack, rewritten⟩ := exists_write portable fits indent
  refine ⟨document, p.carried, written, readBack, rfl, ?_, rewritten⟩
  rintro ⟨source, found⟩
  exact (read_text found).2.1

/-- A source of three lines, of which one cannot be read and one has an empty comment. The last
has a comment that is kept. -/
def sampleSource : String := "a++ if :b>=a then goto 3 end //\n)\nc=\"x\"-- 2 // done"

theorem exists_parse_sample : ∃ p, Program.parse sampleSource "" = .ok p ∧ Fits p := by
  obtain ⟨p, parsed, fits⟩ := exists_ok_of_any (x := Program.parse sampleSource "")
    (f := fun p => decide (Fits p)) (by decide +kernel)
  exact ⟨p, parsed, of_decide_eq_true fits⟩

/-- The sample goes through a document and back. -/
theorem read_write_sample :
    ∃ p, WasRead p ∧ ∃ document back, write p (some 2) = .ok document ∧
      read document = .ok back ∧ back.lines = p.lines.map (·.withoutEmptyComments.bare) ∧
      ((∃ source, read source = .ok p) → back = p) ∧
      ∀ other, write back other = write p other := by
  obtain ⟨p, parsed, fits⟩ := exists_parse_sample
  have origin : WasRead p := .inr ⟨⟨_, _, parsed⟩, fits⟩
  exact ⟨p, origin, read_write_of_wasRead origin (some 2)⟩

end Cylon

end YololChip
