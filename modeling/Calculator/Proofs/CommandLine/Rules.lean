import Calculator.Proofs.CommandLine.Meaning
import Mathlib.Data.List.Induction
import Mathlib.Data.Set.List

/-!
# What is taken for granted of a reader of arguments

The program leaves the reading of its arguments to a reader of command lines. All that it takes for
granted of this reader are the rules of `FollowsRules`. They say nothing of how the reader works,
and they leave nothing open: `Request.ofArguments` follows them, and no other reader does.
-/

namespace Calculator.CommandLine

variable {fs gs : List Flag} {f : Flag} {flags rest : List String} {arg first : String}

/-- An option with a value. -/
def IsValued (arg : String) : Prop :=
  ∃ (f : Flag) (value : String), arg = "--" ++ f.name ++ "=" ++ value

/-- Options that ask for a calculation, each of the two choices being made once at most. -/
structure Permitted (fs : List Flag) : Prop where
  mem : ∀ f ∈ fs, f ∈ [Flag.tokens, .tree, .verbose]
  tokens : fs.count .tokens ≤ 1
  tree : fs.count .tree ≤ 1

/-- The rules that arguments are read by. Options are `Spelled` in front of all else. -/
structure FollowsRules (read : List String → Request) : Prop where
  /-- The first argument that is no option is an operand, and so is all that follows it. -/
  operand : ∀ {fs flags first} (rest), Spelled fs flags → Permitted fs → ¬ IsOption first →
    ¬ IsValued first → first ≠ "--" →
      read (flags ++ first :: rest) = .calculate (.ofFlags fs) (first :: rest)
  /-- A pair of dashes in front of the operands is dropped. -/
  separator : ∀ {fs flags rest}, Spelled fs flags → Permitted fs → rest ≠ [] →
    read (flags ++ "--" :: rest) = .calculate (.ofFlags fs) rest
  /-- There has to be an operand. -/
  missing : ∀ {fs flags}, Spelled fs flags → Permitted fs →
    read flags = .misuse ∧ read (flags ++ ["--"]) = .misuse
  /-- No option takes a value. -/
  valued : ∀ {fs flags arg} (rest), Spelled fs flags → Permitted fs → IsValued arg →
    read (flags ++ arg :: rest) = .misuse
  /-- No choice is made twice. -/
  repeated : ∀ {fs gs f flags} (rest), Spelled (fs ++ f :: gs) flags → Permitted fs → f ∈ fs →
    f ≠ .verbose → read (flags ++ rest) = .misuse
  /-- Help ends the reading where it is asked for. -/
  help : ∀ {fs gs flags} (rest), Spelled (fs ++ .help :: gs) flags → Permitted fs →
    read (flags ++ rest) = .help
  /-- So does the version. -/
  version : ∀ {fs gs flags} (rest), Spelled (fs ++ .version :: gs) flags → Permitted fs →
    read (flags ++ rest) = .version

/-! ### The reader follows the rules -/

lemma Permitted.addAll_none (h : Permitted fs) : Options.none.addAll fs = .ok (.ofFlags fs) := by
  rw [CommandLine.addAll_none h.mem, if_pos ⟨h.tokens, h.tree⟩]

lemma Permitted.ofArguments (h : Permitted fs) (hflags : Spelled fs flags) (args : List String) :
    Request.ofArguments (flags ++ args) = (Options.ofFlags fs).read args := by
  rw [ofArguments_spelled hflags h.mem, if_pos ⟨h.tokens, h.tree⟩]

/-- The first option that is not permitted ends the reading. -/
lemma Permitted.ofArguments_of_add {request : Request} (h : Permitted fs)
    (hflags : Spelled (fs ++ f :: gs) flags) (hadd : (Options.ofFlags fs).add f = .error request)
    (args : List String) : Request.ofArguments (flags ++ args) = request := by
  rw [Request.ofArguments, read_spelled hflags, addAll_append, h.addAll_none]
  simp only [Options.addAll, hadd]

lemma add_of_mem (hmem : f ∈ fs) (hf : f ∈ [Flag.tokens, .tree]) :
    (Options.ofFlags fs).add f = .error .misuse := by
  simp only [List.mem_cons, List.not_mem_nil, or_false] at hf
  have hcount : 0 < fs.count f := List.count_pos_iff.2 hmem
  rcases hf with rfl | rfl <;> simp [Options.add, Options.ofFlags, hcount]

lemma takeWhile_append_of_not_mem {cs ds : List Char} (h : '=' ∉ cs) :
    (cs ++ '=' :: ds).takeWhile (· ≠ '=') = cs := by
  have hcs : ∀ c ∈ cs, decide (c ≠ '=') = true := by
    intro c hc
    simpa using ne_of_mem_of_not_mem hc h
  rw [List.takeWhile_append_of_pos hcs, List.takeWhile_cons_of_neg (by simp), List.append_nil]

lemma ofText_eq_valued_iff : Argument.ofText arg = .valued ↔ IsValued arg := by
  constructor
  · fun_cases Argument.ofText arg with
    | case2 cs _ hcs f hf hmem =>
      rintro -
      obtain ⟨name, value, rfl, hname⟩ := List.eq_append_cons_of_mem hmem
      rw [takeWhile_append_of_not_mem hname, ofName?_eq_some_iff] at hf
      refine ⟨f, .ofList value, ?_⟩
      rw [← String.toList_inj, hcs, hf]
      simp
    | _ => simp
  · rintro ⟨f, value, rfl⟩
    have hname : '=' ∉ f.name.toList := by cases f <;> decide
    have harg : ("--" ++ f.name ++ "=" ++ value).toList =
        '-' :: '-' :: (f.name.toList ++ '=' :: value.toList) := by simp
    have hof :
        Flag.ofName? ((f.name.toList ++ '=' :: value.toList).takeWhile (· ≠ '=')) = some f := by
      rw [takeWhile_append_of_not_mem hname, ofName?_eq_some_iff]
    fun_cases Argument.ofText ("--" ++ f.name ++ "=" ++ value) with
    | case2 => rfl
    | _ => simp_all

lemma ofText_eq_operand (hoption : ¬ IsOption first) (hvalued : ¬ IsValued first)
    (hdashes : first ≠ "--") : Argument.ofText first = .operand := by
  cases h : Argument.ofText first with
  | flags fs => exact absurd (ofText_eq_flags_iff.1 ⟨fs, h⟩) hoption
  | valued => exact absurd (ofText_eq_valued_iff.1 h) hvalued
  | separator => exact absurd (eq_dashes_of_separator h) hdashes
  | operand => rfl

lemma ofText_dashes : Argument.ofText "--" = .separator := by decide

theorem followsRules_ofArguments : FollowsRules Request.ofArguments where
  operand rest hflags hfs hoption hvalued hdashes := by
    rw [hfs.ofArguments hflags, Options.read, ofText_eq_operand hoption hvalued hdashes]
  separator hflags hfs hrest := by
    rw [hfs.ofArguments hflags, Options.read, ofText_dashes]
    exact if_neg hrest
  missing {fs flags} hflags hfs := by
    constructor
    · have hread := hfs.ofArguments hflags []
      rwa [List.append_nil] at hread
    · rw [hfs.ofArguments hflags, Options.read, ofText_dashes]
      rfl
  valued rest hflags hfs harg := by
    rw [hfs.ofArguments hflags, Options.read, ofText_eq_valued_iff.2 harg]
  repeated rest hflags hfs hmem hf := by
    refine hfs.ofArguments_of_add hflags (add_of_mem hmem ?_) rest
    have hmem := hfs.mem _ hmem
    simp_all
  help rest hflags hfs := hfs.ofArguments_of_add hflags rfl rest
  version rest hflags hfs := hfs.ofArguments_of_add hflags rfl rest

/-! ### The rules leave nothing open -/

lemma IsOption.exists_spelled (h : IsOption arg) (hflags : Spelled fs flags) :
    ∃ gs, Spelled (gs ++ fs) (arg :: flags) := by
  rcases h with ⟨name, hname, rfl⟩ | ⟨cs, hne, hcs, hletters⟩
  · rw [← String.ofList_toList (s := name), ← ofName?_isSome_iff, Option.isSome_iff_exists] at hname
    obtain ⟨f, hf⟩ := hname
    rw [ofName?_eq_some_iff, String.toList_inj] at hf
    subst hf
    exact ⟨[f], .name f hflags⟩
  · have hrange : cs ∈ Set.range (List.map Flag.letter) := by
      rw [Set.range_list_map]
      intro c hc
      obtain ⟨f, hf⟩ := Option.isSome_iff_exists.1 (ofLetter?_isSome_iff.2 (hletters c hc))
      exact ⟨f, (ofLetter?_eq_some_iff.1 hf).symm⟩
    obtain ⟨gs, rfl⟩ := hrange
    obtain rfl : arg = "-" ++ .ofList (gs.map Flag.letter) := by
      rw [← String.toList_inj, hcs]
      simp
    exact ⟨gs, .letters gs (by simpa using hne) hflags⟩

/-- Arguments are options and what stands behind them. -/
lemma exists_spelled_append (args : List String) :
    ∃ fs flags rest, args = flags ++ rest ∧ Spelled fs flags ∧
      ∀ first ∈ rest.head?, ¬ IsOption first := by
  induction args with
  | nil => exact ⟨[], [], [], rfl, .nil, by simp⟩
  | cons arg args ih =>
    by_cases harg : IsOption arg
    · obtain ⟨fs, flags, rest, rfl, hflags, hrest⟩ := ih
      obtain ⟨gs, hspelled⟩ := harg.exists_spelled hflags
      exact ⟨gs ++ fs, arg :: flags, rest, rfl, hspelled, hrest⟩
    · exact ⟨[], [], arg :: args, rfl, .nil, by simpa using harg⟩

lemma Permitted.concat (h : Permitted fs) (hf : f ∈ [Flag.tokens, .tree, .verbose])
    (hnew : f ∈ fs → f = .verbose) : Permitted (fs ++ [f]) where
  mem := List.forall_mem_append.2 ⟨h.mem, by simpa using hf⟩
  tokens := by
    have htokens := h.tokens
    cases f <;> simp_all [List.count_eq_zero_of_not_mem]
  tree := by
    have htree := h.tree
    cases f <;> simp_all [List.count_eq_zero_of_not_mem]

/-- Options are permitted, or there is a first one that is not. -/
lemma permitted_or_exists (fs : List Flag) :
    Permitted fs ∨ ∃ gs f hs, fs = gs ++ f :: hs ∧ Permitted gs ∧
      (f = .help ∨ f = .version ∨ f ∈ gs ∧ f ≠ .verbose) := by
  induction fs using List.reverseRecOn with
  | nil => exact .inl ⟨by simp, by simp, by simp⟩
  | append_singleton fs f ih =>
    rcases ih with hfs | ⟨gs, g, hs, rfl, hgs, hg⟩
    · by_cases hf : f = .help ∨ f = .version ∨ f ∈ fs ∧ f ≠ .verbose
      · exact .inr ⟨fs, f, [], rfl, hfs, hf⟩
      · push Not at hf
        refine .inl (hfs.concat ?_ hf.2.2)
        cases f <;> simp_all
    · exact .inr ⟨gs, g, hs ++ [f], by simp, hgs, hg⟩

/-- A reader that follows the rules is the one that is modelled here. -/
theorem FollowsRules.eq_ofArguments {read : List String → Request} (h : FollowsRules read) :
    read = Request.ofArguments := by
  have h' := followsRules_ofArguments
  funext args
  obtain ⟨fs, flags, rest, rfl, hflags, hrest⟩ := exists_spelled_append args
  rcases permitted_or_exists fs with hfs | ⟨gs, f, hs, rfl, hgs, rfl | rfl | ⟨hmem, hf⟩⟩
  · cases rest with
    | nil => rw [List.append_nil, (h.missing hflags hfs).1, (h'.missing hflags hfs).1]
    | cons first rest =>
      have hoption : ¬ IsOption first := hrest first rfl
      by_cases hdashes : first = "--"
      · subst hdashes
        by_cases hnil : rest = []
        · rw [hnil, (h.missing hflags hfs).2, (h'.missing hflags hfs).2]
        · rw [h.separator hflags hfs hnil, h'.separator hflags hfs hnil]
      · by_cases hvalued : IsValued first
        · rw [h.valued rest hflags hfs hvalued, h'.valued rest hflags hfs hvalued]
        · rw [h.operand rest hflags hfs hoption hvalued hdashes,
            h'.operand rest hflags hfs hoption hvalued hdashes]
  · rw [h.help rest hflags hgs, h'.help rest hflags hgs]
  · rw [h.version rest hflags hgs, h'.version rest hflags hgs]
  · rw [h.repeated rest hflags hgs hmem hf, h'.repeated rest hflags hgs hmem hf]

end Calculator.CommandLine
