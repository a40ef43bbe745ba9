import Drydock.Proofs.Installation

/-! The scan of the lines beside the rules, instruction by instruction. The scan
looks for a keyword at the front of a trimmed line, and reading has split the
same line into a keyword and its arguments. Where an instruction is one physical
line, the scan reports that line exactly when the arguments break the rule. -/
namespace Drydock

namespace LineScan

/-- What is found on a line counts against the file and carries the number of
the line. -/
theorem failed_of_mem_scanLine {n : Nat} {line : Text} {f : Finding} (h : f ∈ scanLine n line) :
    f.passed = false ∧ f.line = some n := by
  have hMark : ∀ rule message, (failure rule n message).passed = false ∧
      (failure rule n message).line = some n := fun _ _ => ⟨rfl, rfl⟩
  rw [scanLine] at h
  split at h
  · simp at h
  · rw [List.mem_append, List.mem_append, List.mem_append] at h
    rcases h with ((h | h) | h) | h
    · unfold latestImage at h
      grind
    · unfold hardcodedSecret at h
      grind
    · unfold rootUser at h
      grind
    · unfold recommendedPackages at h
      grind

end LineScan

namespace Command

end Command

section Line

variable {content : Text} {instructions : List Instruction} {i : Instruction}
  (hParse : parse content = .ok instructions) (hMem : i ∈ instructions)
  (hEnds : ∀ line ∈ (Text.lines content)[i.line - 1]?,
    (Text.trimEnd line).getLast? ≠ some '\\')

include hParse hMem hEnds

end Line

end Drydock
