import StepTrace.Text.Span

/-!
# Transcripts

A transcript keeps the end of everything that an interpreter printed, in at most a fixed number of
bytes. It never cuts through a character: `byteSize_push_le` says that the limit holds after every
line, `push_suffix` that only the start is lost.
-/

set_option autoImplicit false

namespace StepTrace

namespace Text

/-- A text without the shortest leading part that has at least `n` bytes. -/
def dropAtLeast : Nat → List Char → List Char
  | 0, s => s
  | _ + 1, [] => []
  | n + 1, c :: r => dropAtLeast (n + 1 - c.utf8Size) r

theorem dropAtLeast_suffix (n : Nat) (s : List Char) : dropAtLeast n s <:+ s := by
  induction s generalizing n with
  | nil => cases n <;> simp [dropAtLeast]
  | cons c r ih =>
    cases n with
    | zero => exact List.suffix_refl _
    | succ n => exact (ih _).trans (List.suffix_cons c r)

theorem byteSize_dropAtLeast (n : Nat) (s : List Char) :
    byteSize (dropAtLeast n s) ≤ byteSize s - n := by
  induction s generalizing n with
  | nil => cases n <;> simp [dropAtLeast, byteSize]
  | cons c r ih =>
    cases n with
    | zero => simp [dropAtLeast]
    | succ n =>
      have h := ih (n + 1 - c.utf8Size)
      simp only [dropAtLeast, byteSize]
      omega

end Text

/-- The end of what was printed, and how many bytes of it are kept. -/
structure Transcript where
  text : List Char
  limit : Nat
  deriving DecidableEq, Repr, Inhabited

namespace Transcript

/-- A transcript of nothing. -/
def empty (limit : Nat) : Transcript := ⟨[], limit⟩

/-- The transcript with one more line. -/
def push (t : Transcript) (line : List Char) : Transcript :=
  let text := t.text ++ line ++ ['\n']
  { t with text := Text.dropAtLeast (Text.byteSize text - t.limit) text }

/-- The transcript after its text is thrown away. -/
def clear (t : Transcript) : Transcript := { t with text := [] }

/-- The number of bytes that are kept. -/
def size (t : Transcript) : Nat := Text.byteSize t.text

theorem push_suffix (t : Transcript) (line : List Char) :
    (t.push line).text <:+ t.text ++ line ++ ['\n'] :=
  Text.dropAtLeast_suffix _ _

theorem byteSize_push_le (t : Transcript) (line : List Char) : (t.push line).size ≤ t.limit := by
  have h := Text.byteSize_dropAtLeast (Text.byteSize (t.text ++ line ++ ['\n']) - t.limit)
    (t.text ++ line ++ ['\n'])
  simp only [size, push]
  omega

end Transcript

end StepTrace
