import Calculator.Proofs.CommandLine.Arguments
import Mathlib.Logic.Function.Iterate

/-!
# What options mean

Options may be given in any order, by their names or by letters, and letters may be joined or given
one by one. All that matters of them is which of the two choices of output is made, and how often
the program is asked to tell more. Beyond three times this makes no difference; up to that it adds
records to the log, and changes nothing else.
-/

namespace Calculator.CommandLine

variable {fs fs' gs : List Flag} {flags flags' args : List String} {arg s : String}
variable {o o' : Options}

/-! ### Spellings -/

/-- Arguments that spell options in this order. An argument is the name of an option, or the letters
of one or more of them. -/
inductive Spelled : List Flag → List String → Prop where
  | nil : Spelled [] []
  | name {fs : List Flag} {args : List String} (f : Flag) (h : Spelled fs args) :
      Spelled (f :: fs) (("--" ++ f.name) :: args)
  | letters {fs : List Flag} {args : List String} (gs : List Flag) (hne : gs ≠ [])
      (h : Spelled fs args) :
      Spelled (gs ++ fs) (("-" ++ .ofList (gs.map Flag.letter)) :: args)

lemma ofText_name (f : Flag) : Argument.ofText ("--" ++ f.name) = .flags [f] := by
  cases f <;> decide

lemma ofText_letters (hne : gs ≠ []) :
    Argument.ofText ("-" ++ .ofList (gs.map Flag.letter)) = .flags gs := by
  obtain ⟨g, gs, rfl⟩ := List.exists_cons_of_ne_nil hne
  have hlist : ("-" ++ String.ofList ((g :: gs).map Flag.letter)).toList =
      '-' :: g.letter :: gs.map Flag.letter := by simp
  have hg : g.letter ≠ '-' := by cases g <;> decide
  have hmap : (g.letter :: gs.map Flag.letter).mapM Flag.ofLetter? = some (g :: gs) :=
    mapM_ofLetter?_eq_some_iff.2 rfl
  fun_cases Argument.ofText ("-" ++ .ofList ((g :: gs).map Flag.letter)) with
  | case5 c cs _ hc h fs hfs =>
    rw [hlist] at h
    obtain ⟨-, h⟩ := List.cons.inj h
    rw [← h, hmap] at hfs
    cases hfs
    rfl
  | case6 c cs _ hc h hfs =>
    rw [hlist] at h
    obtain ⟨-, h⟩ := List.cons.inj h
    rw [← h, hmap] at hfs
    cases hfs
  | _ => simp_all

/-! ### Reading options -/

lemma addAll_append (o : Options) (gs fs : List Flag) :
    o.addAll (gs ++ fs) =
      match o.addAll gs with
      | .ok o' => o'.addAll fs
      | .error request => .error request := by
  induction gs generalizing o with
  | nil => rfl
  | cons g gs ih =>
    rw [List.cons_append, Options.addAll, Options.addAll]
    cases o.add g with
    | ok o' => exact ih o'
    | error request => rfl

lemma read_flags_append (harg : Argument.ofText arg = .flags gs)
    (ih : ∀ o : Options, o.read (flags ++ args) =
      match o.addAll fs with
      | .ok o' => o'.read args
      | .error request => request) (o : Options) :
    o.read (arg :: flags ++ args) =
      match o.addAll (gs ++ fs) with
      | .ok o' => o'.read args
      | .error request => request := by
  simp only [List.cons_append, Options.read, harg, addAll_append]
  cases o.addAll gs with
  | ok o' => exact ih o'
  | error request => rfl

/-- It does not matter how options are distributed over arguments. -/
lemma read_spelled (h : Spelled fs flags) (o : Options) (args : List String) :
    o.read (flags ++ args) =
      match o.addAll fs with
      | .ok o' => o'.read args
      | .error request => request := by
  induction h generalizing o with
  | nil => rfl
  | name f h ih => exact read_flags_append (ofText_name f) ih o
  | letters gs hne h ih => exact read_flags_append (ofText_letters hne) ih o

/-! ### Counting -/

lemma toNat_oneMore (n : UInt8) : (oneMore n).toNat = min 255 (n.toNat + 1) := by
  rw [oneMore]
  split
  · next h => simp [h]
  · next h =>
    have hne : n.toNat ≠ 255 := fun h' => h (UInt8.toNat_inj.1 h')
    have hlt : n.toNat + 1 < 256 := by
      have := n.toNat_lt
      omega
    rw [UInt8.toNat_add, UInt8.toNat_one, Nat.mod_eq_of_lt hlt]
    exact (Nat.min_eq_right (Nat.le_of_lt_succ hlt)).symm

/-- The count goes up to 255 and stays there. -/
lemma toNat_iterate_oneMore (k : Nat) (n : UInt8) :
    (oneMore^[k] n).toNat = min 255 (n.toNat + k) := by
  induction k generalizing n with
  | zero => exact (Nat.min_eq_right (Nat.le_of_lt_succ n.toNat_lt)).symm
  | succ k ih =>
    rw [Function.iterate_succ_apply, ih, toNat_oneMore]
    omega

/-- How often each option is given decides what the options ask for. -/
lemma addAll_eq (hfs : ∀ f ∈ fs, f ∈ [Flag.tokens, .tree, .verbose]) (o : Options) :
    o.addAll fs =
      if o.tokens.toNat + fs.count .tokens ≤ 1 ∧ o.tree.toNat + fs.count .tree ≤ 1 then
        .ok ⟨o.tokens || 0 < fs.count .tokens, o.tree || 0 < fs.count .tree,
          oneMore^[fs.count .verbose] o.verbosity⟩
      else .error .misuse := by
  have hone (n : Nat) : 1 + n ≤ 1 ↔ n = 0 := by omega
  induction fs generalizing o with
  | nil => simp [Options.addAll, Bool.toNat_le]
  | cons f fs ih =>
    obtain ⟨hf, hfs⟩ := List.forall_mem_cons.1 hfs
    obtain ⟨tokens, tree, verbosity⟩ := o
    have ih := ih hfs
    simp only [List.mem_cons, List.not_mem_nil, or_false] at hf
    rcases hf with rfl | rfl | rfl
    · cases tokens with
      | true => simp [Options.addAll, Options.add, hone]
      | false => simp [Options.addAll, Options.add, ih, hone]
    · cases tree with
      | true => simp [Options.addAll, Options.add, hone]
      | false => simp [Options.addAll, Options.add, ih, hone]
    · simp [Options.addAll, Options.add, ih]

/-- What options ask for, each of the two choices being given once at most. -/
def Options.ofFlags (fs : List Flag) : Options :=
  ⟨0 < fs.count .tokens, 0 < fs.count .tree, oneMore^[fs.count .verbose] 0⟩

lemma addAll_none (hfs : ∀ f ∈ fs, f ∈ [Flag.tokens, .tree, .verbose]) :
    Options.none.addAll fs =
      if fs.count .tokens ≤ 1 ∧ fs.count .tree ≤ 1 then .ok (.ofFlags fs)
      else .error .misuse := by
  simp [addAll_eq hfs, Options.none, Options.ofFlags]

lemma ofArguments_spelled (h : Spelled fs flags)
    (hfs : ∀ f ∈ fs, f ∈ [Flag.tokens, .tree, .verbose]) (args : List String) :
    Request.ofArguments (flags ++ args) =
      if fs.count .tokens ≤ 1 ∧ fs.count .tree ≤ 1 then (Options.ofFlags fs).read args
      else .misuse := by
  rw [Request.ofArguments, read_spelled h, addAll_none hfs]
  by_cases hc : fs.count .tokens ≤ 1 ∧ fs.count .tree ≤ 1
  · rw [if_pos hc, if_pos hc]
  · rw [if_neg hc, if_neg hc]

/-! ### Runs -/

/-- The arguments behind the options mean the same whatever the options are. -/
lemma read_of_not_isOption (hargs : ∀ first ∈ args.head?, ¬ IsOption first) :
    (∃ operands, ∀ o : Options, o.read args = .calculate o operands) ∨
      ∀ o : Options, o.read args = .misuse := by
  cases args with
  | nil => exact .inr fun o => rfl
  | cons first rest =>
    have hfirst : ∀ fs, Argument.ofText first ≠ .flags fs := by
      intro fs hfs
      exact hargs first rfl (ofText_eq_flags_iff.1 ⟨fs, hfs⟩)
    cases harg : Argument.ofText first with
    | flags fs => exact absurd harg (hfirst fs)
    | valued => exact .inr fun o => by simp [Options.read, harg]
    | separator =>
      by_cases hrest : rest = []
      · exact .inr fun o => by simp [Options.read, harg, hrest]
      · exact .inl ⟨rest, fun o => by simp [Options.read, harg, hrest]⟩
    | operand => exact .inl ⟨first :: rest, fun o => by simp [Options.read, harg]⟩

/-- The same options are passed over in the search for the expression. -/
lemma isFlag_of_spelled (h : Spelled fs flags)
    (hfs : ∀ f ∈ fs, f ∈ [Flag.tokens, .tree, .verbose]) : ∀ flag ∈ flags, isFlag flag = true := by
  induction h with
  | nil => simp
  | name f h ih =>
    obtain ⟨hf, hfs⟩ := List.forall_mem_cons.1 hfs
    exact List.forall_mem_cons.2 ⟨isFlag_name hf, ih hfs⟩
  | letters gs hne h ih =>
    obtain ⟨hgs, hfs⟩ := List.forall_mem_append.1 hfs
    exact List.forall_mem_cons.2 ⟨isFlag_letters hgs hne (by simp), ih hfs⟩

lemma expression_spelled (h : Spelled fs flags)
    (hfs : ∀ f ∈ fs, f ∈ [Flag.tokens, .tree, .verbose])
    (hargs : ∀ first ∈ args.head?, ¬ IsOption first) :
    expression (flags ++ args) = " ".intercalate args := by
  rw [expression, expressionArguments, List.dropWhile_append_of_pos (isFlag_of_spelled h hfs)]
  cases args with
  | nil => rfl
  | cons first rest =>
    have hfirst : ¬ isFlag first = true := fun hflag => hargs first rfl (isOption_of_isFlag hflag)
    rw [List.dropWhile_cons_of_neg hfirst]

/-- What a run does that has options in front of some arguments: it calculates, unless a choice is
made twice or there is nothing to calculate. -/
lemma run_cases (hargs : ∀ first ∈ args.head?, ¬ IsOption first) :
    (∀ {fs : List Flag} {flags : List String}, Spelled fs flags →
      (∀ f ∈ fs, f ∈ [Flag.tokens, .tree, .verbose]) → run (flags ++ args) =
        if fs.count .tokens ≤ 1 ∧ fs.count .tree ≤ 1 then
          evaluate (.ofFlags fs) (" ".intercalate args)
        else ⟨2, "", [], none⟩) ∨
    ∀ {fs : List Flag} {flags : List String}, Spelled fs flags →
      (∀ f ∈ fs, f ∈ [Flag.tokens, .tree, .verbose]) → run (flags ++ args) = ⟨2, "", [], none⟩ := by
  rcases read_of_not_isOption hargs with ⟨operands, hoperands⟩ | hmisuse
  · left
    intro fs flags h hfs
    simp only [run, ofArguments_spelled h hfs, hoperands, expression_spelled h hfs hargs]
    by_cases hc : fs.count .tokens ≤ 1 ∧ fs.count .tree ≤ 1
    · rw [if_pos hc, if_pos hc]
    · rw [if_neg hc, if_neg hc]
  · right
    intro fs flags h hfs
    simp only [run, ofArguments_spelled h hfs, hmisuse, ite_self]

/-- Where the choices are the same, two runs calculate the same text or end in the same way. -/
lemma run_related {R : Outcome → Outcome → Prop} (hrefl : ∀ r, R r r) (h : Spelled fs flags)
    (h' : Spelled fs' flags') (hfs : ∀ f ∈ fs ++ fs', f ∈ [Flag.tokens, .tree, .verbose])
    (hargs : ∀ first ∈ args.head?, ¬ IsOption first)
    (htokens : fs.count .tokens = fs'.count .tokens) (htree : fs.count .tree = fs'.count .tree)
    (hevaluate : ∀ s, R (evaluate (.ofFlags fs) s) (evaluate (.ofFlags fs') s)) :
    R (run (flags ++ args)) (run (flags' ++ args)) := by
  obtain ⟨hfs, hfs'⟩ := List.forall_mem_append.1 hfs
  rcases run_cases hargs with hrun | hrun
  · rw [hrun h hfs, hrun h' hfs', htokens, htree]
    split
    · exact hevaluate _
    · exact hrefl _
  · rw [hrun h hfs, hrun h' hfs']
    exact hrefl _

/-! ### Limits -/

/-- How much is told, up to three times more. -/
lemma detail_limit (o : Options) : o.limit.detail = 2 + min 3 o.verbosity.toNat := by
  rw [Options.limit]
  split
  · next h => simp [h, Log.Level.detail]
  · next h => simp [h, Log.Level.detail]
  · next h => simp [h, Log.Level.detail]
  · next h₀ h₁ h₂ =>
    have hle : 3 ≤ o.verbosity.toNat := by
      simp only [imp_false, ← UInt8.toNat_inj, UInt8.reduceToNat] at h₀ h₁ h₂
      omega
    rw [Nat.min_eq_left hle, Log.Level.detail]

lemma detail_injective {l l' : Log.Level} (h : l.detail = l'.detail) : l = l' := by
  cases l <;> cases l' <;> simp_all [Log.Level.detail]

lemma evaluate_eq_of_limit (htokens : o.tokens = o'.tokens) (htree : o.tree = o'.tree)
    (h : o.limit = o'.limit) (s : String) : evaluate o s = evaluate o' s := by
  simp only [evaluate, htokens, htree, h]

/-- How much is told shows in the log only. -/
lemma evaluate_of_limit_le (htokens : o.tokens = o'.tokens) (htree : o.tree = o'.tree)
    (h : o.limit.detail ≤ o'.limit.detail) (s : String) :
    (evaluate o s).exitCode = (evaluate o' s).exitCode ∧
      (evaluate o s).output = (evaluate o' s).output ∧
      (evaluate o s).failure = (evaluate o' s).failure ∧
      (evaluate o s).log.Sublist (evaluate o' s).log := by
  obtain ⟨tokens, tree, verbosity⟩ := o
  obtain ⟨tokens', tree', verbosity'⟩ := o'
  obtain rfl : tokens = tokens' := htokens
  obtain rfl : tree = tree' := htree
  exact ⟨rfl, rfl, rfl, Log.filter_sublist_filter h _⟩

/-- The order and the spelling of options make no difference to a run. It matters how often each is
given, three demands to tell more being the most, and these do not affect anything but the log. -/
theorem run_options_alike :
    (∀ (fs fs' : List Flag) (flags flags' args : List String), Spelled fs flags →
      Spelled fs' flags' → (∀ f ∈ fs ++ fs', f ∈ [Flag.tokens, .tree, .verbose]) →
      (∀ first ∈ args.head?, ¬ IsOption first) → fs.count .tokens = fs'.count .tokens →
      fs.count .tree = fs'.count .tree →
      min 3 (fs.count .verbose) = min 3 (fs'.count .verbose) →
      run (flags ++ args) = run (flags' ++ args)) ∧
    ∀ (fs fs' : List Flag) (flags flags' args : List String), Spelled fs flags →
      Spelled fs' flags' → (∀ f ∈ fs ++ fs', f ∈ [Flag.tokens, .tree, .verbose]) →
      (∀ first ∈ args.head?, ¬ IsOption first) → fs.count .tokens = fs'.count .tokens →
      fs.count .tree = fs'.count .tree → fs.count .verbose ≤ fs'.count .verbose →
      (run (flags ++ args)).exitCode = (run (flags' ++ args)).exitCode ∧
        (run (flags ++ args)).output = (run (flags' ++ args)).output ∧
        (run (flags ++ args)).failure = (run (flags' ++ args)).failure ∧
        (run (flags ++ args)).log.Sublist (run (flags' ++ args)).log := by
  refine ⟨?_, ?_⟩
  · intro fs fs' flags flags' args h h' hfs hargs htokens htree hverbose
    refine run_related (fun _ => rfl) h h' hfs hargs htokens htree fun s => ?_
    apply evaluate_eq_of_limit
    · simp [Options.ofFlags, htokens]
    · simp [Options.ofFlags, htree]
    · -- the saturated counts agree up to three, and no limit lies above that
      apply detail_injective
      simp only [detail_limit, Options.ofFlags, toNat_iterate_oneMore]
      omega
  · intro fs fs' flags flags' args h h' hfs hargs htokens htree hverbose
    refine run_related (R := fun r r' => r.exitCode = r'.exitCode ∧ r.output = r'.output ∧
      r.failure = r'.failure ∧ r.log.Sublist r'.log) (fun _ => ⟨rfl, rfl, rfl, .refl _⟩)
      h h' hfs hargs htokens htree fun s => ?_
    apply evaluate_of_limit_le
    · simp [Options.ofFlags, htokens]
    · simp [Options.ofFlags, htree]
    · simp only [detail_limit, Options.ofFlags, toNat_iterate_oneMore]
      omega

theorem run_options_alike_joined :
    Spelled [.verbose, .tree, .verbose, .verbose, .verbose] ["-vpv", "--verbose", "-v"] ∧
      Spelled [.tree, .verbose, .verbose, .verbose] ["--tree", "-vvv"] ∧
      run ["-vpv", "--verbose", "-v", "1/3"] = run ["--tree", "-vvv", "1/3"] := by
  have h : Spelled [.verbose, .tree, .verbose, .verbose, .verbose] ["-vpv", "--verbose", "-v"] :=
    .letters [.verbose, .tree, .verbose] (by simp)
      (.name .verbose (.letters [.verbose] (by simp) .nil))
  have h' : Spelled [.tree, .verbose, .verbose, .verbose] ["--tree", "-vvv"] :=
    .name .tree (.letters [.verbose, .verbose, .verbose] (by simp) .nil)
  have hfirst : ¬ IsOption "1/3" := by
    rw [← ofText_eq_flags_iff]
    rintro ⟨fs, hfs⟩
    cases hfs
  exact ⟨h, h', run_options_alike.1 _ _ _ _ ["1/3"] h h' (by decide)
    (by simpa using hfirst) (by decide) (by decide) (by decide)⟩

end Calculator.CommandLine
