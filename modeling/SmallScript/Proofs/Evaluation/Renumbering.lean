/-
  Neither layout nor the numbers of nodes matter to a run.

  Interpreters that are started with libraries that bind alike correspond (`matches_start`), and
  programs that differ only in where they stand and in how their nodes are numbered do the same in
  them: at no depth does one of the runs end and not the other, they fail alike, they write the
  same, and the global frames that they leave correspond (`runs_alike`).
-/
import SmallScript.Library.Sampler
import SmallScript.Proofs.Evaluation.Parallel
import SmallScript.Proofs.Reading.Layout

namespace SmallScript

namespace Link

/-! ## Interpreters that are started alike -/

section Start

variable (L : Link)

/-- Libraries that bind what corresponds under the same names. -/
def Makers (make make' : Maker) : Prop :=
  ∀ h h', L.Heaps h h' → L.AndHeaps L.Entries (make h) (make' h')

/-- Both sides count everything from the beginning. -/
structure Fresh : Prop where
  frames : L.frames.InStep 0 0
  texts : L.texts.InStep 0 0
  lists : L.lists.InStep 0 0
  objects : L.objects.InStep 0 0
  tables : L.tables.InStep 0 0
  closures : L.closures.InStep 0 0

variable {L}

theorem entries_natives {ν : Type} (all : List ν) (f : ν → Native)
    (hf : ∀ n, L.Natives (f n) (f n)) :
    L.Entries (all.map fun n => Library.native (f n)) (all.map fun n => Library.native (f n)) := by
  induction all with
  | nil => exact .nil
  | cons n all ih => exact .cons ⟨rfl, .function (.native (hf n))⟩ ih

theorem makers_standard : L.Makers Library.standard Library.standard := by
  intro h h' hh
  obtain ⟨hmath, hh⟩ := hh.newNamed "math" (entries_natives MathFunction.all .math .math)
  exact ⟨List.rel_append (entries_natives _ _ .global) (.cons ⟨rfl, hmath⟩ .nil), hh⟩

theorem entries_hosted (fs : List HostFunction) :
    L.Entries (fs.map Library.hosted) (fs.map Library.hosted) := by
  induction fs with
  | nil => exact .nil
  | cons f fs ih => exact .cons ⟨rfl, .function (.host f)⟩ ih

theorem makers_sampler : L.Makers Library.sampler Library.sampler := by
  intro h h' hh
  let members := [Sampler.inc, Sampler.half, Sampler.shout].map Library.hosted ++
    [("answer", .int 42)]
  have hmembers : L.Entries members members :=
    List.rel_append (entries_hosted _) (.cons ⟨rfl, .int _⟩ .nil)
  obtain ⟨hutil, hh⟩ := hh.newNamed "util" hmembers
  exact ⟨.cons ⟨rfl, hutil⟩ (entries_hosted _), hh⟩

theorem makers_makeAll {ms ms' : List Maker} (hms : List.Forall₂ L.Makers ms ms') :
    L.Makers (Maker.makeAll ms) (Maker.makeAll ms') := by
  induction hms with
  | nil => exact fun h h' hh => ⟨.nil, hh⟩
  | cons hm _ ih =>
    intro h h' hh
    obtain ⟨hfirst, hh⟩ := hm h h' hh
    obtain ⟨hrest, hh⟩ := ih _ _ hh
    exact ⟨List.rel_append hfirst hrest, hh⟩

theorem rows_empty {P : Pairing} (h : P.InStep 0 0) {α β : Type} {R : α → β → Prop} :
    P.Rows R #[] #[] := ⟨h, fun _ => .none⟩

/-- Interpreters that are started with libraries that bind alike, and on the same console and clock,
correspond. -/
theorem matches_start (hL : L.Fresh) {ms ms' : List Maker} (hms : List.Forall₂ L.Makers ms ms')
    (console : Console) (clock : Clock) :
    L.Matches (State.start ms console clock) (State.start ms' console clock) := by
  have hempty : L.Heaps {} {} :=
    { texts := rows_empty hL.texts
      lists := rows_empty hL.lists
      objects := rows_empty hL.objects
      tables := rows_empty hL.tables
      closures := hL.closures }
  obtain ⟨hbindings, hheap⟩ := makers_makeAll hms {} {} hempty
  -- The global frame is the first one that is made.
  have hframes : L.Frames ⟨#[{}]⟩ ⟨#[{}]⟩ :=
    Pairing.Rows.push (rows_empty hL.frames) bags_empty
  have hglobal : L.frames.Pairs 0 0 := hL.frames.pairs
  exact
    { world := ⟨hheap, rfl, rfl, fun _ => rfl⟩
      frames := Frames.defineAll hframes hglobal hbindings
      globals := .cons hglobal .nil }

end Start

end Link

/-- The functions of the sampler look at what values are, and never at their numbers. -/
theorem Host.sampler_uniform : sampler.Uniform := by
  intro L f args args' w w' hw hargs
  have hcount : L.AndWorlds (Link.Results L.Values) (wrongCount f.params args, w)
      (wrongCount f.params args', w') := ⟨Link.results_wrongCount hargs _, hw⟩
  obtain ⟨i, name, params⟩ := f
  change L.AndWorlds _ (Sampler.invoke ⟨i, name, params⟩ args w)
    (Sampler.invoke ⟨i, name, params⟩ args' w')
  cases hargs with
  | nil => rcases i with _ | _ | _ | _ | _ | i <;> exact hcount
  | @cons v v' _ _ hv hrest =>
    cases hrest with
    | nil =>
      rcases i with _ | _ | _ | _ | _ | i
      · have heq := congrArg (Except.map fun n => Value.int (n + 1)) (hw.heap.expectInt_eq hv)
        exact ⟨Link.results_values heq (answers_map (fun n => Value.Plain.int _) _), hw⟩
      · have heq := congrArg (Except.map fun x => Value.float (x.div (Double.ofInt64 2)))
          (hw.heap.expectNumber_eq hv)
        exact ⟨Link.results_values heq (answers_map (fun x => Value.Plain.float _) _), hw⟩
      · have heq := congrArg (Except.map fun s => Product.text (s ++ "!"))
          (hw.heap.expectText_eq hv)
        have hplain : Answers Product.Plain ((w.heap.expectText v).map fun s => .text (s ++ "!")) :=
          answers_map (fun _ => trivial) _
        exact hw.finish (Link.results_products heq hplain)
      · exact hcount
      · have hprint := hw.heap.print_eq hv
        change L.AndWorlds (Link.Results L.Values) (.error (.custom (w.heap.print v)), w)
          (.error (.custom (w'.heap.print v')), w')
        rw [hprint]
        exact ⟨.error _, hw⟩
      · exact hcount
    | cons hu hrest =>
      cases hrest with
      | nil => rcases i with _ | _ | _ | _ | _ | i <;> exact hcount
      | cons ht hrest =>
        cases hrest with
        | nil =>
          rcases i with _ | _ | _ | _ | _ | i
          · exact hcount
          · exact hcount
          · exact hcount
          · obtain ⟨hr, hh⟩ := hw.heap.newList (.cons hv (.cons hu (.cons ht .nil)))
            exact ⟨.ok (.list hr), hh, hw.console, hw.clock⟩
          · exact hcount
          · exact hcount
        | cons hx hrest => rcases i with _ | _ | _ | _ | _ | i <;> exact hcount

namespace Link

/-! ## Whole runs -/

/-- Two runs end alike: neither of them ends, or both are done, or both fail in the same way; and
what they leave corresponds. -/
inductive Ends (L : Link) : Outcome Unit → Outcome Unit → Prop where
  | done {s s' : State} : L.Matches s s' → Ends L (.done () s) (.done () s')
  | failed {u u' : Unwind} {s s' : State} :
      RunFault.ofUnwind u = RunFault.ofUnwind u' → L.Matches s s' →
      Ends L (.unwound u s) (.unwound u' s')
  | exhausted : Ends L .exhausted .exhausted

variable {L : Link}

theorem Outcomes.ends {o o' : Outcome Unit} (h : L.Outcomes Eq o o') : L.Ends o o' := by
  cases h with
  | done _ hs => exact .done hs.toMatches
  | exhausted => exact .exhausted
  | unwound hu hs =>
    refine .failed ?_ hs.toMatches
    cases hu <;> rfl

theorem ends_execAll {config : Config} (hhost : config.host.Uniform) {ts ts' : List Stmt}
    (hts : List.Forall₂ (Stmt.Like L.nodes) ts ts') {s s' : State} (hs : L.Matches s s') (n : Nat) :
    L.Ends ((walker config n).execAll ts s.ready) ((walker config n).execAll ts' s'.ready) :=
  ((walkers hhost n).execAll hts _ _ hs.ready).ends

end Link

/-- Programs that are the same up to places and a renaming of their nodes run alike, at every
depth (`Interpreter.run` goes `Interpreter.levels` deep), from states that correspond.  So do
documents with the same words that are read without a complaint.  The nodes of a link play no part
in the states but in the code of functions of scripts, if there are any.  An embedder must not tell
values apart by their numbers, if it brings functions. -/
theorem runs_alike (config : Config) (hhost : config.host.Uniform) :
    (∀ (L : Link) (p p' : Program) (s s' : State), p.plain = p'.plain →
      List.Forall₂ L.nodes p.numbers p'.numbers → L.Matches s s' → ∀ n,
        L.Ends ((walker config n).execAll p.stmts s.ready)
          ((walker config n).execAll p'.stmts s'.ready)) ∧
    (∀ (L : Link) (doc doc' : Document) (s s' : State), doc.kinds = doc'.kinds →
      (Parse.ofDocument doc).log.hasErrors = false →
      (Parse.ofDocument doc').log.hasErrors = false →
      (∀ i, L.nodes i i) → L.Matches s s' → ∀ n,
        L.Ends ((walker config n).execAll (Parse.ofDocument doc).program.stmts s.ready)
          ((walker config n).execAll (Parse.ofDocument doc').program.stmts s'.ready)) := by
  constructor
  · intro L p p' s s' hplain hnumbers hs n
    exact Link.ends_execAll hhost (Program.like_of_plain hplain hnumbers) hs n
  · intro L doc doc' s s' hkinds h h' hnodes hs n
    obtain ⟨hplain, hnumbers⟩ := same_of_kinds hkinds h h'
    have hsame : List.Forall₂ L.nodes (Parse.ofDocument doc).program.numbers
        (Parse.ofDocument doc').program.numbers := by
      rw [hnumbers]
      exact List.forall₂_same.2 fun i _ => hnodes i
    exact Link.ends_execAll hhost (Program.like_of_plain hplain hsame) hs n

/-- Both sides count alike, and the nodes belong together as `nodes` tells. -/
def Link.counting (nodes : NodeId → NodeId → Prop) (unique : Relator.BiUnique nodes) : Link :=
  let alike : Pairing := ⟨0, 0, fun _ _ => False, nofun, ⟨nofun, nofun⟩⟩
  ⟨alike, alike, alike, alike, alike, alike, nodes, unique⟩

theorem biUnique_eq : Relator.BiUnique (@Eq NodeId) :=
  ⟨fun _ _ _ h h' => h.trans h'.symm, fun _ _ _ h h' => h.symm.trans h'⟩

/-- The program `fn f(a) { return [a, 1]; }  write f(2);`, wherever it stands, with its nodes
numbered in one way or another. -/
def echo (s : Span) (define list one two : NodeId) : Program :=
  let body := Stmt.return s (some (.list s list [.name s "a", .int s one "1"]))
  ⟨[.define s define ⟨"f", s⟩ ⟨["a"], ⟨[body], s⟩⟩,
    .write s (.call s (.name s "f") [.int s two "2"])], s⟩

/-- The numbers of `echo`, counted up and given at will. -/
inductive EchoNodes : NodeId → NodeId → Prop where
  | define : EchoNodes 0 7
  | list : EchoNodes 1 5
  | one : EchoNodes 2 6
  | two : EchoNodes 3 0

theorem EchoNodes.unique : Relator.BiUnique EchoNodes := by
  constructor
  · intro i j k h h'
    cases h <;> cases h' <;> rfl
  · intro i j k h h'
    cases h <;> cases h' <;> rfl

theorem echo_runs_alike :
    let config : Config := { host := .sampler }
    let s := State.start [Library.standard, Library.sampler] {} {}
    let p := echo default 0 1 2 3
    let p' := echo ⟨⟨4, 2⟩, ⟨9, 1⟩⟩ 7 5 6 0
    let doc : Document := { name := "", text := "write 1;" }
    let doc' : Document := { name := "", text := "/* one */ write 1 ;" }
    (∀ n, (Link.counting EchoNodes EchoNodes.unique).Ends
      ((walker config n).execAll p.stmts s.ready) ((walker config n).execAll p'.stmts s.ready)) ∧
    (∀ n, (Link.counting Eq biUnique_eq).Ends
      ((walker config n).execAll (Parse.ofDocument doc).program.stmts s.ready)
      ((walker config n).execAll (Parse.ofDocument doc').program.stmts s.ready)) := by
  intro config s p p' doc doc'
  have hs : ∀ nodes unique, (Link.counting nodes unique).Matches s s := by
    intro nodes unique
    have hzero : Pairing.InStep ⟨0, 0, fun _ _ => False, nofun, ⟨nofun, nofun⟩⟩ 0 0 := ⟨0, rfl, rfl⟩
    exact Link.matches_start ⟨hzero, hzero, hzero, hzero, hzero, hzero⟩
      (.cons Link.makers_standard (.cons Link.makers_sampler .nil)) {} {}
  have hnumbers : List.Forall₂ EchoNodes p.numbers p'.numbers :=
    .cons .define (.cons .list (.cons .one (.cons .two .nil)))
  have hquiet : (Parse.ofDocument doc).log.hasErrors = false := by decide +kernel
  have hquiet' : (Parse.ofDocument doc').log.hasErrors = false := by decide +kernel
  have hkinds : doc.kinds = doc'.kinds := by decide +kernel
  obtain ⟨hprograms, hdocuments⟩ := runs_alike config Host.sampler_uniform
  exact ⟨hprograms _ p p' s s rfl hnumbers (hs _ _),
    hdocuments _ doc doc' s s hkinds hquiet hquiet' (fun _ => rfl) (hs _ _)⟩

end SmallScript
