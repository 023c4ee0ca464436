import Mathlib.Data.List.Induction
import RuleForest.Log.Logger

namespace RuleForest

namespace Logger

def lines (l : Logger) (calls : List (String × LogCall)) : List String :=
  calls.filterMap fun c => (l.entry? c.1 c.2).map LogEntry.line

def accepted (l : Logger) (calls : List (String × LogCall)) : List (String × LogCall) :=
  calls.filter fun c => (l.objection? c.2).isNone

theorem printed_eq_lines {l : Logger} (h : l.stdout = true) (calls : List (String × LogCall)) :
    (calls.filterMap fun c => l.printed? c.1 c.2) = l.lines calls := by
  simp only [lines, printed?, h, ↓reduceIte]

end Logger

abbrev Chunk := List String

namespace Chunk

variable {limit : Int} {line : String} {lines : List String} {c : Chunk} {chunks : List Chunk}

def text (c : Chunk) : String := String.join c

def add (limit : Int) (chunks : List Chunk) (line : String) : List Chunk :=
  match chunks with
  | [] => [[line]]
  | c :: older =>
    if limit < (c.text.utf8ByteSize + line.utf8ByteSize : Nat) then [line] :: c :: older
    else (c ++ [line]) :: older

def split (limit : Int) (lines : List String) : List Chunk := lines.foldl (add limit) []

theorem split_append (limit : Int) (lines : List String) (line : String) :
    split limit (lines ++ [line]) = add limit (split limit lines) line := by
  rw [split, List.foldl_append, List.foldl_cons, List.foldl_nil, split]

theorem text_append (c : Chunk) (line : String) : text (c ++ [line]) = c.text ++ line := by
  simp [text, String.join_append]

theorem flatten_add (limit : Int) (chunks : List Chunk) (line : String) :
    (add limit chunks line).reverse.flatten = chunks.reverse.flatten ++ [line] := by
  cases chunks with
  | nil => rfl
  | cons c older =>
    simp only [add]
    split <;> simp

theorem flatten_split (limit : Int) (lines : List String) :
    (split limit lines).reverse.flatten = lines := by
  induction lines using List.reverseRecOn with
  | nil => rfl
  | append_singleton lines line ih => rw [split_append, flatten_add, ih]

def Fits (limit : Int) (c : Chunk) : Prop :=
  (c.text.utf8ByteSize : Int) ≤ limit ∨ ∃ line, c = [line]

theorem fits_add (h : ∀ c ∈ chunks, Fits limit c) (line : String) :
    ∀ c ∈ add limit chunks line, Fits limit c := by
  cases chunks with
  | nil =>
    intro c hc
    exact .inr ⟨line, List.mem_singleton.mp hc⟩
  | cons c older =>
    simp only [add]
    split
    · rintro d (_ | ⟨_, hd⟩)
      · exact .inr ⟨line, rfl⟩
      · exact h d hd
    · next hlimit =>
      rintro d (_ | ⟨_, hd⟩)
      · left
        rw [text_append, String.utf8ByteSize_append]
        omega
      · exact h d (List.mem_cons_of_mem _ hd)

theorem fits_split (limit : Int) (lines : List String) : ∀ c ∈ split limit lines, Fits limit c := by
  induction lines using List.reverseRecOn with
  | nil => exact fun c hc => absurd hc List.not_mem_nil
  | append_singleton lines line ih =>
    rw [split_append]
    exact fits_add ih line

end Chunk

end RuleForest
