import Calculator.Proofs.Token.Calls

/-!
# Scanning by bytes

A cursor carries what is left of its text. A scanner has the whole text instead, and the number of
the byte where it stands, and it cuts out of the text what it needs: what is ahead, to read a
character off it, and the literal of a token. It gives back the character that it remembers from
the last time it read. All this could go wrong: a cut may begin or end inside of a character or
beyond the text, and a step back may be longer than what lies behind. What a scanner does is
therefore partial.

In fact nothing of it ever fails, because a scanner `Follows` the stream of the tokens of its text.
It stands at the byte where the cursor of the stream is, and whenever it gives a character back it
has just read it.
-/

namespace Calculator

variable {s w : String} {m n : Nat} {c : Char}

/-! ### Cutting a text -/

/-- The text between two bytes. They have to come in this order, and each has to be the first byte
of a character or the end of the text. -/
def cut? (s : String) (m n : Nat) : Option String :=
  match s.pos? ⟨m⟩, s.pos? ⟨n⟩ with
  | some p, some q => (s.slice? p q).map String.Slice.copy
  | _, _ => none

lemma pos?_eq_some_iff {p : s.Pos} : s.pos? ⟨m⟩ = some p ↔ p.offset = ⟨m⟩ := by
  constructor
  · intro h
    obtain ⟨hm, rfl⟩ : ∃ h, s.pos ⟨m⟩ h = p := by
      simpa [String.pos?, String.Slice.pos?, String.pos] using h
    rfl
  · intro h
    have hm := h ▸ p.isValid
    simp [String.pos?, String.Slice.pos?, hm, String.Pos.ext_iff, h]

/-- Stretches of a text are what can be cut out of it. -/
theorem cut?_eq_some_iff : cut? s m n = some w ↔ IsStretch s m n w := by
  rw [cut?]
  constructor
  · intro h
    split at h
    · next p q hp hq =>
      rw [pos?_eq_some_iff] at hp hq
      obtain ⟨hle, rfl⟩ : ∃ hle, (s.slice p q hle).copy = w := by
        simpa [String.slice?] using h
      obtain ⟨a, b, ha, hb⟩ := String.copy_slice_eq_iff_splits.1 ⟨hle, rfl⟩
      refine ⟨a, b, hb.eq_append, ?_, ?_⟩
      · simpa [hp] using congrArg String.Pos.Raw.byteIdx ha.offset_eq_rawEndPos.symm
      · simpa [hq] using congrArg String.Pos.Raw.byteIdx hb.offset_eq_rawEndPos.symm
    · cases h
  · rintro ⟨a, b, hs, rfl, rfl⟩
    have ha := String.Pos.splits_ofEqAppend (hs.trans String.append_assoc)
    have hb := String.Pos.splits_ofEqAppend hs
    obtain ⟨hle, hw⟩ := String.copy_slice_eq_iff_splits.2 ⟨a, b, ha, hb⟩
    rw [pos?_eq_some_iff.2 ha.offset_eq_rawEndPos, pos?_eq_some_iff.2 hb.offset_eq_rawEndPos]
    simp [String.slice?, hle, hw]

/-! ### Scanners -/

namespace Token

/-- What a scanner does. -/
inductive Scanner.Act where
  /-- It begins with a token. -/
  | call
  /-- From the byte `n` on it reads a character, or none at the end of the text. -/
  | read (n : Nat) (c? : Option Char)
  /-- From the byte `n` it steps back to the byte `m` over the character that it remembers, if it
  remembers one. -/
  | unread (n : Nat) (last : Option Char) (m : Nat)

/-- A text that is read by bytes. -/
structure Scanner where
  whole : String
  byte : Nat
  /-- What the scanner read when it last did so, unless that was given back. -/
  last : Option Char
  /-- Whether the end token was handed out as an element. -/
  finished : Bool
  /-- What the scanner did so far, the latest first. -/
  acts : List Scanner.Act

namespace Scanner

/-- The scanner at the start of a text. -/
def ofText (s : String) : Scanner :=
  ⟨s, 0, none, false, []⟩

/-- Read the next character, if there is one. -/
def read (k : Scanner) : Option (Option Char × Scanner) := do
  let ahead ← cut? k.whole k.byte k.whole.utf8ByteSize
  match ahead.toList.head? with
  | none => some (none, { k with last := none, acts := .read k.byte none :: k.acts })
  | some c =>
    some (some c,
      { k with
        byte := k.byte + c.utf8Size
        last := some c
        acts := .read k.byte (some c) :: k.acts })

/-- Step back over the character that is remembered. -/
def unread (k : Scanner) : Option Scanner :=
  match k.last with
  | none => some { k with acts := .unread k.byte none k.byte :: k.acts }
  | some c =>
    if c.utf8Size ≤ k.byte then
      some
        { k with
          byte := k.byte - c.utf8Size
          last := none
          acts := .unread k.byte (some c) (k.byte - c.utf8Size) :: k.acts }
    else none

/-- Where a character is read, the text is not at its end. -/
lemma byte_lt_of_read {k k' : Scanner} (h : k.read = some (some c, k')) :
    k'.whole = k.whole ∧ k.byte < k.whole.utf8ByteSize ∧ k.byte < k'.byte := by
  obtain ⟨ahead, hahead, h⟩ := Option.bind_eq_some_iff.1 h
  split at h
  · cases h
  · next d hd =>
    cases h
    refine ⟨rfl, ?_, Nat.lt_add_of_pos_right c.utf8Size_pos⟩
    have hstop := (cut?_eq_some_iff.1 hahead).stop_eq
    have hne : ahead.utf8ByteSize ≠ 0 := by
      intro hzero
      simp [String.utf8ByteSize_eq_zero_iff.1 hzero] at hd
    omega

/-- Step over the longest run of characters of one class: read up to the first one of another class,
and give that back. -/
def readWhile (p : Char → Bool) (k : Scanner) : Option Scanner :=
  match h : k.read with
  | none => none
  | some (none, k') => some k'
  | some (some c, k') =>
    if p c then
      have := byte_lt_of_read h
      readWhile p k'
    else k'.unread
termination_by k.whole.utf8ByteSize - k.byte
decreasing_by
  rw [this.1]
  omega

lemma readWhile_of_none {k k' : Scanner} {p : Char → Bool} (h : k.read = some (none, k')) :
    k.readWhile p = some k' := by
  rw [readWhile]
  split <;> simp_all

lemma readWhile_of_some {k k' : Scanner} {p : Char → Bool} (h : k.read = some (some c, k')) :
    k.readWhile p = if p c then k'.readWhile p else k'.unread := by
  rw [readWhile]
  split <;> simp_all

/-- Read the next token. -/
def nextToken (k : Scanner) : Option (Token × Scanner) := do
  let (c?, k') ← read { k with acts := .call :: k.acts }
  match c? with
  | none => some (⟨.eof, "", k.byte⟩, k')
  | some c =>
    match Kind.ofSymbol? c with
    | some kind =>
      let w ← cut? k'.whole k.byte k'.byte
      some (⟨kind, w, k.byte⟩, k')
    | none =>
      if isBlank c then
        let k'' ← k'.readWhile isBlank
        some (⟨.whitespace, "", k.byte⟩, k'')
      else
        let k'' ← k'.readWhile isWordChar
        let w ← cut? k''.whole k.byte k''.byte
        some (⟨.ofWord w.toList, w, k.byte⟩, k'')

/-- Read the next element, if there is one. -/
def next? (k : Scanner) : Option (Option Token × Scanner) :=
  if k.finished then some (none, k)
  else do
    let (t, k') ← k.nextToken
    some (some t, { k' with finished := t.kind = .eof })

/-- A way to ask for a single token. -/
inductive Ask where
  | nextToken
  | nextElement

/-- The call of a stream that asks for the same. -/
def Ask.call : Ask → Stream.Call
  | .nextToken => .nextToken
  | .nextElement => .nextElement

/-- What a scanner hands out when it is asked, and the scanner after it. -/
def answer (k : Scanner) : Ask → Option (List Token × Scanner)
  | .nextToken => k.nextToken.map fun p => ([p.1], p.2)
  | .nextElement => k.next?.map fun p => (p.1.toList, p.2)

/-- A scanner is asked several times. -/
def answers (k : Scanner) : List Ask → Option (List (Stream.Call × List Token) × Scanner)
  | [] => some ([], k)
  | a :: as => do
    let (ts, k') ← k.answer a
    let (rest, k'') ← k'.answers as
    some ((a.call, ts) :: rest, k'')

/-! ### Following a stream -/

/-- Each step back undoes what comes right before it, which is that the character is read; so it is
not longer than what lies behind. -/
def Restores : List Act → Prop
  | [] => True
  | .unread n last m :: acts =>
    (∃ c, acts.head? = some (.read m (some c)) ∧ last = some c ∧ n = m + c.utf8Size) ∧
      Restores acts
  | _ :: acts => Restores acts

/-- The scanner stands in the text `s` where the stream does. -/
structure Follows (s : String) (k : Scanner) (st : Stream) : Prop where
  whole : k.whole = s
  split : ∃ a, s.toList = a ++ st.cursor.rest ∧ String.utf8Len a = k.byte
  offset : st.cursor.offset = k.byte
  finished : k.finished = st.finished
  restores : Restores k.acts

variable {k : Scanner} {st : Stream} {cur : Cursor} {finished : Bool}

lemma follows_ofText (s : String) : (ofText s).Follows s (.ofText s) where
  whole := rfl
  split := ⟨[], rfl, rfl⟩
  offset := rfl
  finished := rfl
  restores := trivial

namespace Follows

lemma call (h : k.Follows s st) : Follows s { k with acts := .call :: k.acts } st :=
  ⟨h.whole, h.split, h.offset, h.finished, h.restores⟩

/-- What is ahead of the stream can be cut out of the text. -/
lemma cut?_eq (h : k.Follows s st) :
    cut? k.whole k.byte k.whole.utf8ByteSize = some (.ofList st.cursor.rest) := by
  obtain ⟨a, ha, hbyte⟩ := h.split
  rw [h.whole, cut?_eq_some_iff, ← hbyte, ← String.utf8Len_toList, ha, String.utf8Len_append]
  exact isStretch_of_toList (b := []) (by rw [ha, List.append_nil])

/-- So can what lies between two places of the stream. -/
lemma cut?_between {k' : Scanner} {st' : Stream} (h : k.Follows s st) (h' : k'.Follows s st')
    (cs : List Char) (hcs : st.cursor.rest = cs ++ st'.cursor.rest)
    (hn : st'.cursor.offset = k.byte + String.utf8Len cs) :
    cut? k'.whole k.byte k'.byte = some (.ofList cs) := by
  obtain ⟨a, ha, hbyte⟩ := h.split
  rw [h'.whole, cut?_eq_some_iff, ← h'.offset, hn, ← hbyte]
  rw [hcs] at ha
  exact isStretch_of_toList ha

lemma read_of_none (h : k.Follows s st) (hread : st.cursor.read? = none) :
    ∃ k', k.read = some (none, k') ∧ k'.Follows s st := by
  rw [Cursor.read?_eq_none_iff] at hread
  refine ⟨{ k with last := none, acts := .read k.byte none :: k.acts }, ?_, ?_⟩
  · simp [read, h.cut?_eq, hread]
  · exact ⟨h.whole, h.split, h.offset, h.finished, h.restores⟩

/-- A character that was just read can be given back, and then the scanner stands where it stood. -/
lemma read_of_some (h : k.Follows s st) (hread : st.cursor.read? = some (c, cur)) :
    ∃ k', k.read = some (some c, k') ∧ k'.Follows s { st with cursor := cur } ∧
      ∃ k'', k'.unread = some k'' ∧ k''.Follows s st := by
  obtain ⟨hrest, hoffset⟩ := Cursor.read?_eq_some_iff.1 hread
  obtain ⟨a, ha, hbyte⟩ := h.split
  refine ⟨{ k with
    byte := k.byte + c.utf8Size
    last := some c
    acts := .read k.byte (some c) :: k.acts }, ?_, ?_, ?_⟩
  · simp [read, h.cut?_eq, hrest]
  · refine ⟨h.whole, ⟨a ++ [c], ?_, ?_⟩, ?_, h.finished, h.restores⟩
    · simpa [hrest] using ha
    · simp [hbyte]
    · rw [hoffset, h.offset]
  · refine ⟨_, if_pos (Nat.le_add_left _ _), h.whole, ⟨a, ha, ?_⟩, ?_, h.finished, ?_⟩
    · simpa using hbyte
    · simpa using h.offset
    · exact ⟨⟨c, by simp, rfl, by simp⟩, h.restores⟩

lemma readWhile (p : Char → Bool) (h : k.Follows s st) :
    ∃ k', k.readWhile p = some k' ∧
      k'.Follows s { st with cursor := (st.cursor.readWhile p).2 } := by
  obtain ⟨cur, finished⟩ := st
  fun_induction Cursor.readWhile p cur generalizing k with
  | case1 cur hread =>
    obtain ⟨k', hk', h'⟩ := h.read_of_none hread
    exact ⟨k', readWhile_of_none hk', h'⟩
  | case2 cur c cur' hread hp hlt run cur'' hrun ih =>
    obtain ⟨k', hk', h', -⟩ := h.read_of_some hread
    rw [readWhile_of_some hk', if_pos hp]
    simpa [hrun] using ih h'
  | case3 cur c cur' hread hp =>
    obtain ⟨k', hk', -, k'', hk'', h''⟩ := h.read_of_some hread
    rw [readWhile_of_some hk', if_neg hp, Cursor.giveBack_of_read? hread]
    exact ⟨k'', hk'', h''⟩

theorem nextToken (h : k.Follows s st) :
    ∃ k', k.nextToken = some (st.nextToken.1, k') ∧ k'.Follows s st.nextToken.2 := by
  obtain ⟨cur, finished⟩ := st
  have hoffset : cur.offset = k.byte := h.offset
  rw [Scanner.nextToken, Stream.nextToken]
  fun_cases Cursor.nextToken cur with
  | case1 hread =>
    obtain ⟨k', hk', h'⟩ := h.call.read_of_none hread
    exact ⟨k', by simp [hk', hoffset], h'⟩
  | case2 c cur' hread kind hkind =>
    obtain ⟨k', hk', h', -⟩ := h.call.read_of_some hread
    obtain ⟨hrest, hstop⟩ := Cursor.read?_eq_some_iff.1 hread
    have hcut := h.cut?_between h' [c] hrest (by simp [hstop, hoffset])
    exact ⟨k', by simp [hk', hkind, hcut, hoffset], h'⟩
  | case3 c cur' hread hkind hb =>
    obtain ⟨k', hk', h', -⟩ := h.call.read_of_some hread
    obtain ⟨k'', hk'', h''⟩ := h'.readWhile isBlank
    exact ⟨k'', by simp [hk', hkind, hb, hk'', hoffset], h''⟩
  | case4 c cur' hread hkind hb run cur'' hrun =>
    obtain ⟨k', hk', h', -⟩ := h.call.read_of_some hread
    obtain ⟨hrest, hstop⟩ := Cursor.read?_eq_some_iff.1 hread
    obtain ⟨k'', hk'', h''⟩ := h'.readWhile isWordChar
    -- the word lies between the byte where the scanner began and the byte where it stopped
    have hsplit := Cursor.readWhile_eq isWordChar cur'
    rw [hrun] at hsplit h''
    obtain ⟨rfl, rfl⟩ := Prod.mk.inj hsplit
    have hcut := h.cut?_between h'' (c :: cur'.rest.takeWhile isWordChar)
      (by simp [hrest]) (by rw [add_utf8Len_cons, hstop, hoffset])
    exact ⟨k'', by simp [hk', hkind, hb, hk'', hcut, hoffset], h''⟩

lemma next? (h : k.Follows s st) :
    ∃ k', k.next? = some (st.next?.1, k') ∧ k'.Follows s st.next?.2 := by
  obtain ⟨cur, finished⟩ := st
  have hfinished : k.finished = finished := h.finished
  rw [Scanner.next?, Stream.next?, hfinished]
  cases finished with
  | true => exact ⟨k, rfl, h⟩
  | false =>
    obtain ⟨k', hk', h'⟩ := h.nextToken
    refine ⟨{ k' with finished := cur.nextToken.1.kind = .eof }, ?_, ?_⟩
    · simp [hk', Stream.nextToken]
    · exact ⟨h'.whole, h'.split, h'.offset, rfl, h'.restores⟩

lemma answer (h : k.Follows s st) (a : Ask) :
    ∃ k', k.answer a = some ((st.answer a.call).1, k') ∧ k'.Follows s (st.answer a.call).2 := by
  cases a with
  | nextToken =>
    obtain ⟨k', hk', h'⟩ := h.nextToken
    exact ⟨k', by simp [Scanner.answer, hk', Ask.call, Stream.answer], h'⟩
  | nextElement =>
    obtain ⟨k', hk', h'⟩ := h.next?
    exact ⟨k', by simp [Scanner.answer, hk', Ask.call, Stream.answer], h'⟩

/-- A scanner follows the stream however often both are asked. -/
lemma answers (h : k.Follows s st) (asks : List Ask) :
    ∃ k', k.answers asks = some (st.answers (asks.map Ask.call), k') ∧
      k'.Follows s (st.after (asks.map Ask.call)) := by
  induction asks generalizing k st with
  | nil => exact ⟨k, rfl, h⟩
  | cons a asks ih =>
    obtain ⟨k', hk', h'⟩ := h.answer a
    obtain ⟨k'', hk'', h''⟩ := ih h'
    exact ⟨k'', by simp [Scanner.answers, hk', hk'', Stream.answers], h''⟩

/-- The scanner stands in front of a character or at the end. -/
lemma isValid (h : k.Follows s st) : (⟨k.byte⟩ : String.Pos.Raw).IsValid s := by
  obtain ⟨a, ha, hbyte⟩ := h.split
  rw [String.Pos.Raw.isValid_iff_exists_append]
  refine ⟨.ofList a, .ofList st.cursor.rest, ?_, ?_⟩
  · rw [← String.toList_inj, ha]
    simp
  · rw [String.Pos.Raw.ext_iff, String.byteIdx_rawEndPos, ← String.utf8Len_toList,
      String.toList_ofList, hbyte]

lemma utf8ByteSize_eq (h : k.Follows s st) :
    s.utf8ByteSize = k.byte + String.utf8Len st.cursor.rest := by
  obtain ⟨a, ha, hbyte⟩ := h.split
  rw [← String.utf8Len_toList, ha, String.utf8Len_append, hbyte]

/-- From one token to the next the scanner moves over a stretch of the text, and that is empty at
the end of the text only. -/
lemma exists_isStretch {k' : Scanner} (h : k.Follows s st) (h' : k'.Follows s st.nextToken.2) :
    ∃ w, IsStretch s k.byte k'.byte w ∧ (w = "" → k.byte = s.utf8ByteSize) := by
  obtain ⟨w, hrest, hoffset, hnil⟩ := st.cursor.exists_rest_eq
  have hcut := h.cut?_between h' w hrest (hoffset.trans (by rw [h.offset]))
  rw [h'.whole, cut?_eq_some_iff] at hcut
  refine ⟨.ofList w, hcut, ?_⟩
  intro hw
  have hend := hnil (by simpa using hw)
  simp [h.utf8ByteSize_eq, hend]

end Follows

/-- A scanner never fails, and answers as the stream of its text does. It stands in front of a
character or at the end of the text, a step back undoes the reading of one character, and each
token takes it forward until the end is reached. -/
theorem exists_answers_eq (s : String) (asks : List Ask) :
    ∃ k, (ofText s).answers asks =
        some ((Stream.ofText s).answers (asks.map Ask.call), k) ∧
      k.byte = ((Stream.ofText s).after (asks.map Ask.call)).cursor.offset ∧
      k.byte ≤ s.utf8ByteSize ∧ (⟨k.byte⟩ : String.Pos.Raw).IsValid s ∧ Restores k.acts ∧
      ∃ t k', k.nextToken = some (t, k') ∧
        (k.byte < s.utf8ByteSize → ∃ w, w ≠ "" ∧ IsStretch s k.byte k'.byte w) ∧
        (k.byte = s.utf8ByteSize → k'.byte = k.byte) := by
  obtain ⟨k, hk, h⟩ := (follows_ofText s).answers asks
  obtain ⟨k', hk', h'⟩ := h.nextToken
  obtain ⟨w, hw, hend⟩ := h.exists_isStretch h'
  refine ⟨k, hk, h.offset.symm, h.isValid.le_utf8ByteSize, h.isValid, h.restores, _, k', hk',
    ?_, ?_⟩
  · intro hlt
    refine ⟨w, ?_, hw⟩
    intro hempty
    exact hlt.ne (hend hempty)
  · intro heq
    have hle : k.byte ≤ k'.byte := by
      rw [hw.stop_eq]
      exact Nat.le_add_right _ _
    exact le_antisymm (hw.stop_le.trans_eq heq.symm) hle

end Scanner

end Token

end Calculator
