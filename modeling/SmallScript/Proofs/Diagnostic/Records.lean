/-
  What a log stands for.

  A log keeps less than it was told: of a list of diagnostics it stores the first few, and of the
  rest only how many there are.  `log.Records ds` says that it stands for the list `ds` in this
  way, and the operations on logs are those on lists: `push` puts one diagnostic at the end, and
  `append` the whole list that the other log stands for.  This is not plain for `append`, which
  sees no more of that list than is stored; but what it does not see is never stored, as there is
  no room behind so much.

  So however logs are pushed to and appended to each other, each of them stands for the list that
  would be there had nothing been dropped (`Op.run_records`).
-/
import Mathlib.Logic.Function.Basic
import SmallScript.Proofs.Scanning.Tiling

namespace SmallScript

namespace Log

variable {log other : Log} {ds es : List Diagnostic}

/-- The log stores the first of the diagnostics `ds` and counts all of them. -/
structure Records (log : Log) (ds : List Diagnostic) : Prop where
  stored : log.stored.toList = ds.take capacity
  total : log.total = ds.length

/-! ## What is known of a list from its log -/

namespace Records

theorem size_stored (h : log.Records ds) : log.stored.size = min log.total capacity := by
  rw [← Array.length_toList, h.stored, h.total, List.length_take, Nat.min_comm]

theorem hasErrors_iff (h : log.Records ds) : log.hasErrors = true ↔ ds ≠ [] := by
  unfold hasErrors
  rw [decide_eq_true_iff, h.total, List.length_pos_iff]

theorem isFull_iff (h : log.Records ds) : log.isFull = true ↔ capacity ≤ ds.length := by
  unfold isFull
  rw [decide_eq_true_iff, h.total]

/-! ## Pushing and appending -/

/-- What is pushed comes behind what was there. -/
theorem foldl_push (h : log.Records ds) (es : List Diagnostic) :
    (es.foldl Log.push log).Records (ds ++ es) := by
  have hsize : log.stored.size ≤ capacity := by
    rw [h.size_stored]
    exact Nat.min_le_right _ _
  obtain ⟨htotal, hstored⟩ := Log.foldl_push es log hsize
  refine ⟨?_, ?_⟩
  · rw [hstored, h.stored, List.take_append, List.take_append, List.take_take, List.length_take,
      Nat.min_self]
    congr 2
    omega
  · rw [htotal, h.total, List.length_append]

theorem push (h : log.Records ds) (d : Diagnostic) : (log.push d).Records (ds ++ [d]) :=
  h.foldl_push [d]

/-- What the other log dropped would not have been stored behind what it stores. -/
theorem append (h : log.Records ds) (hother : other.Records es) :
    (log.append other).Records (ds ++ es) := by
  have hpushed : (other.stored.foldl Log.push log).Records (ds ++ es.take capacity) := by
    rw [← Array.foldl_toList, hother.stored]
    exact h.foldl_push _
  have hdropped := hother.size_stored
  have htotal := hother.total
  refine ⟨?_, ?_⟩
  · show (other.stored.foldl Log.push log).stored.toList = _
    rw [hpushed.stored, List.take_append, List.take_append, List.take_take]
    congr 2
    omega
  · show (other.stored.foldl Log.push log).total + (other.total - other.stored.size) = _
    rw [hpushed.total, List.length_append, List.length_append, List.length_take]
    omega

end Records

theorem records_empty : empty.Records [] := ⟨rfl, rfl⟩

/-! ## Many logs -/

/-- Something done to one of many logs.  A log that is appended stays what it is. -/
inductive Op (ι : Type) where
  | push (i : ι) (d : Diagnostic)
  | append (i j : ι)

namespace Op

variable {ι : Type} [DecidableEq ι]

/-- What is done to the logs. -/
def onLogs (kept : ι → Log) : Op ι → ι → Log
  | push i d => Function.update kept i ((kept i).push d)
  | append i j => Function.update kept i ((kept i).append (kept j))

/-- The same, done to lists from which nothing is dropped. -/
def onLists (full : ι → List Diagnostic) : Op ι → ι → List Diagnostic
  | push i d => Function.update full i (full i ++ [d])
  | append i j => Function.update full i (full i ++ full j)

/-- The logs after some operations; all are empty at first. -/
def logs (ops : List (Op ι)) : ι → Log := ops.foldl onLogs fun _ => empty

/-- The lists after some operations; all are empty at first. -/
def lists (ops : List (Op ι)) : ι → List Diagnostic := ops.foldl onLists fun _ => []

/-- Each log stands for its list. -/
def Agree (kept : ι → Log) (full : ι → List Diagnostic) : Prop := ∀ i, (kept i).Records (full i)

variable {kept : ι → Log} {full : ι → List Diagnostic}

theorem Agree.update (h : Agree kept full) (i : ι) (hlog : log.Records ds) :
    Agree (Function.update kept i log) (Function.update full i ds) := by
  intro k
  by_cases hk : k = i
  · subst hk
    rw [Function.update_self, Function.update_self]
    exact hlog
  · rw [Function.update_of_ne hk, Function.update_of_ne hk]
    exact h k

theorem Agree.step (h : Agree kept full) (op : Op ι) :
    Agree (op.onLogs kept) (op.onLists full) := by
  cases op with
  | push i d => exact h.update i ((h i).push d)
  | append i j => exact h.update i ((h i).append (h j))

theorem Agree.run (h : Agree kept full) (ops : List (Op ι)) :
    Agree (ops.foldl onLogs kept) (ops.foldl onLists full) := by
  induction ops generalizing kept full with
  | nil => exact h
  | cons op ops ih => exact ih (h.step op)

/-- Logs that were empty at first stand for the lists that were. -/
theorem run_records (ops : List (Op ι)) (i : ι) : (logs ops i).Records (lists ops i) :=
  Agree.run (fun _ => records_empty) ops i

end Op

end Log

end SmallScript
