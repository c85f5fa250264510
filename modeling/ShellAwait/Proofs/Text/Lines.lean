import Mathlib.Data.List.Induction
import ShellAwait.Text.Lines

/-! # Lines of the UTF-8 text

A line starts at the first byte of a text and behind every line feed. In the encoding of a text a byte
is a line feed only where the character is one, so lines can be found character by character and
offsets counted in bytes. Main statement: the line and the column of every offset, past the end of the
text too, are those that its bytes show. The one exception is the largest offset in a text of one
line, whose column is too large for a word.
-/

namespace ShellAwait.Text

variable {offset start : Nat} {bs : List UInt8} {source : List Char}

/-! ## Bytes -/

def bytes (source : List Char) : List UInt8 := source.flatMap String.utf8EncodeChar

def lineFeed : UInt8 := 10

theorem bytes_cons (c : Char) (rest : List Char) :
    bytes (c :: rest) = String.utf8EncodeChar c ++ bytes rest := List.flatMap_cons

theorem ofNat_ne_lineFeed {n : Nat} (h : n % 256 ≠ 10) : lineFeed ≠ UInt8.ofNat n := fun heq =>
  h (congrArg UInt8.toNat heq).symm

theorem lineFeed_not_mem {c : Char} (h : c ≠ '\n') : lineFeed ∉ String.utf8EncodeChar c := by
  have hvalue : c.val.toNat ≠ 10 := fun heq => h (Char.ext (UInt32.toNat_inj.mp heq))
  simp only [String.utf8EncodeChar]
  generalize c.val.toNat = v at hvalue
  -- A character of one byte is that byte; in all others the bytes are above the ASCII range.
  split
  · simp only [List.mem_singleton]
    exact ofNat_ne_lineFeed (by omega)
  · split
    · simp only [List.mem_cons, List.not_mem_nil, or_false, not_or]
      exact ⟨ofNat_ne_lineFeed (by omega), ofNat_ne_lineFeed (by omega)⟩
    · split
      · simp only [List.mem_cons, List.not_mem_nil, or_false, not_or]
        exact ⟨ofNat_ne_lineFeed (by omega), ofNat_ne_lineFeed (by omega),
          ofNat_ne_lineFeed (by omega)⟩
      · simp only [List.mem_cons, List.not_mem_nil, or_false, not_or]
        exact ⟨ofNat_ne_lineFeed (by omega), ofNat_ne_lineFeed (by omega),
          ofNat_ne_lineFeed (by omega), ofNat_ne_lineFeed (by omega)⟩

/-! ## Starts of lines -/

/-- The offsets just after the line feeds among bytes that stand at `offset`. -/
def startsBehindFeeds (offset : Nat) : List UInt8 → List Nat
  | [] => []
  | b :: rest =>
      if b = lineFeed then (offset + 1) :: startsBehindFeeds (offset + 1) rest
      else startsBehindFeeds (offset + 1) rest

theorem startsBehindFeeds_append (offset : Nat) (front back : List UInt8) :
    startsBehindFeeds offset (front ++ back) =
      startsBehindFeeds offset front ++ startsBehindFeeds (offset + front.length) back := by
  induction front generalizing offset with
  | nil => rfl
  | cons b rest ih =>
      rw [List.cons_append, startsBehindFeeds, startsBehindFeeds, ih, List.length_cons,
        Nat.add_assoc, Nat.add_comm 1]
      split <;> rfl

theorem startsBehindFeeds_eq_nil (h : lineFeed ∉ bs) : startsBehindFeeds offset bs = [] := by
  induction bs generalizing offset with
  | nil => rfl
  | cons b rest ih =>
      obtain ⟨hb, hrest⟩ := not_or.mp (List.mem_cons.not.mp h)
      rw [startsBehindFeeds, if_neg (Ne.symm hb), ih hrest]

/-- Characters and bytes show the same lines. -/
theorem lineStartsFrom_eq (offset : Nat) (source : List Char) :
    lineStartsFrom offset source = (startsBehindFeeds offset (bytes source)).map (· % wordSize) := by
  induction source generalizing offset with
  | nil => rfl
  | cons c rest ih =>
      rw [lineStartsFrom, bytes_cons, startsBehindFeeds_append, String.length_utf8EncodeChar,
        List.map_append, ← ih]
      by_cases hc : c = '\n'
      · subst hc
        rfl
      · rw [if_neg hc, startsBehindFeeds_eq_nil (lineFeed_not_mem hc), List.map_nil, List.nil_append]

theorem length_startsBehindFeeds (offset : Nat) (bs : List UInt8) :
    (startsBehindFeeds offset bs).length = bs.count lineFeed := by
  induction bs generalizing offset with
  | nil => rfl
  | cons b rest ih =>
      rw [startsBehindFeeds, List.count_cons]
      by_cases hb : b = lineFeed <;> simp [hb, ih]

theorem mem_startsBehindFeeds (h : start ∈ startsBehindFeeds offset bs) :
    offset < start ∧ start ≤ offset + bs.length := by
  induction bs generalizing offset with
  | nil => exact absurd h List.not_mem_nil
  | cons b rest ih =>
      rw [startsBehindFeeds] at h
      rw [List.length_cons]
      split at h
      · rcases List.mem_cons.mp h with rfl | h
        · omega
        · have := ih h
          omega
      · have := ih h
        omega

theorem getElem?_of_mem_startsBehindFeeds (h : start ∈ startsBehindFeeds offset bs) :
    ∃ i, start = offset + i + 1 ∧ bs[i]? = some lineFeed := by
  induction bs generalizing offset with
  | nil => exact absurd h List.not_mem_nil
  | cons b rest ih =>
      rw [startsBehindFeeds] at h
      have hlater (hrest : start ∈ startsBehindFeeds (offset + 1) rest) :
          ∃ i, start = offset + i + 1 ∧ (b :: rest)[i]? = some lineFeed := by
        obtain ⟨i, hi, hfeed⟩ := ih hrest
        exact ⟨i + 1, by omega, hfeed⟩
      split at h
      next hb =>
        rcases List.mem_cons.mp h with rfl | h
        · exact ⟨0, rfl, congrArg some hb⟩
        · exact hlater h
      · exact hlater h

theorem pairwise_startsBehindFeeds (offset : Nat) (bs : List UInt8) :
    (startsBehindFeeds offset bs).Pairwise (· < ·) := by
  induction bs generalizing offset with
  | nil => exact .nil
  | cons b rest ih =>
      rw [startsBehindFeeds]
      split
      · exact List.pairwise_cons.mpr ⟨fun start h => (mem_startsBehindFeeds h).1, ih (offset + 1)⟩
      · exact ih (offset + 1)

/-- A line starts so late that its start is no word. -/
def Wraps (source : List Char) : Prop :=
  ∃ i, (bytes source)[i]? = some lineFeed ∧ wordSize ≤ i + 1

theorem lineStarts_eq (h : ¬Wraps source) :
    lineStarts source = 0 :: startsBehindFeeds 0 (bytes source) := by
  rw [lineStarts, lineStartsFrom_eq]
  congr 1
  refine List.map_congr_left (g := id) ?_ |>.trans (List.map_id _)
  intro start hstart
  obtain ⟨i, rfl, hfeed⟩ := getElem?_of_mem_startsBehindFeeds hstart
  refine Nat.mod_eq_of_lt (Nat.lt_of_not_le fun hle => h ⟨i, hfeed, ?_⟩)
  omega

theorem pairwise_lineStarts (h : ¬Wraps source) : (lineStarts source).Pairwise (· < ·) := by
  rw [lineStarts_eq h, List.pairwise_cons]
  exact ⟨fun start h => (mem_startsBehindFeeds h).1, pairwise_startsBehindFeeds 0 (bytes source)⟩

/-! ## The line of an offset -/

/-- The start of the line that bytes end on: the first of them, or the one behind the last line
feed. -/
structure StartsLastLine (start : Nat) (bs : List UInt8) : Prop where
  le_length : start ≤ bs.length
  begins : start = 0 ∨ ∃ i, start = i + 1 ∧ bs[i]? = some lineFeed
  last : ∀ i, start ≤ i → bs[i]? ≠ some lineFeed

theorem StartsLastLine.push {b : UInt8} (h : StartsLastLine start bs) (hb : b ≠ lineFeed) :
    StartsLastLine start (bs ++ [b]) where
  le_length := by
    rw [List.length_append]
    exact Nat.le_add_right_of_le h.le_length
  begins := by
    refine h.begins.imp id ?_
    rintro ⟨i, rfl, hfeed⟩
    exact ⟨i, rfl, List.getElem?_append_left h.le_length ▸ hfeed⟩
  last i hi := by
    by_cases hinside : i < bs.length
    · rw [List.getElem?_append_left hinside]
      exact h.last i hi
    · rw [List.getElem?_append_right (Nat.le_of_not_lt hinside), List.getElem?_singleton]
      split
      · exact fun heq => hb (Option.some.inj heq)
      · exact fun heq => by cases heq

theorem StartsLastLine.eq_zero_iff (h : StartsLastLine start bs) : start = 0 ↔ lineFeed ∉ bs := by
  rw [List.mem_iff_getElem?, not_exists]
  constructor
  · rintro rfl i
    exact h.last i (Nat.zero_le i)
  · intro hnone
    refine h.begins.resolve_right ?_
    rintro ⟨i, -, hfeed⟩
    exact hnone i hfeed

theorem startsLastLine_getLastD (bs : List UInt8) :
    StartsLastLine ((startsBehindFeeds 0 bs).getLastD 0) bs := by
  induction bs using List.reverseRecOn with
  | nil => exact ⟨Nat.le_refl 0, .inl rfl, fun i _ => by simp⟩
  | append_singleton bs b ih =>
      rw [startsBehindFeeds_append, Nat.zero_add, startsBehindFeeds, startsBehindFeeds]
      split
      next hb =>
        rw [List.getLastD_concat]
        refine ⟨by simp, .inr ⟨bs.length, rfl, by simp [hb]⟩, fun i hi => ?_⟩
        rw [List.getElem?_eq_none (by simpa using hi)]
        exact fun heq => by cases heq
      next hb =>
        rw [List.append_nil]
        exact ih.push hb

theorem exists_lineStarts_eq (h : ¬Wraps source) (offset : Nat) : ∃ later,
    lineStarts source = (0 :: startsBehindFeeds 0 ((bytes source).take offset)) ++ later ∧
      ∀ start ∈ later, offset < start := by
  refine ⟨startsBehindFeeds ((bytes source).take offset).length ((bytes source).drop offset),
    ?_, fun start hstart => ?_⟩
  · rw [lineStarts_eq h, List.cons_append]
    conv_lhs => rw [← (bytes source).take_append_drop offset, startsBehindFeeds_append,
      Nat.zero_add]
  · obtain ⟨hlow, hhigh⟩ := mem_startsBehindFeeds hstart
    rw [List.length_drop] at hhigh
    rw [List.length_take] at hlow hhigh
    omega

/-- Where an offset divides the table: its line is found, and the start of that line. -/
theorem partitionPoint_lineStarts (h : ¬Wraps source) (offset : Nat) :
    partitionPoint (· ≤ offset) (lineStarts source) =
        ((bytes source).take offset).count lineFeed + 1 ∧
      ∃ start, (lineStarts source)[((bytes source).take offset).count lineFeed]? = some start ∧
        StartsLastLine start ((bytes source).take offset) := by
  obtain ⟨later, hstarts, hlater⟩ := exists_lineStarts_eq h offset
  have hreached : ∀ start ∈ 0 :: startsBehindFeeds 0 ((bytes source).take offset),
      decide (start ≤ offset) = true := by
    intro start hstart
    rcases List.mem_cons.mp hstart with rfl | hstart
    · exact decide_eq_true (Nat.zero_le offset)
    · obtain ⟨-, hhigh⟩ := mem_startsBehindFeeds hstart
      rw [List.length_take] at hhigh
      exact decide_eq_true (by omega)
  have hbehind : ∀ start ∈ later, decide (start ≤ offset) = false := fun start hstart =>
    decide_eq_false (Nat.not_le_of_lt (hlater start hstart))
  rw [hstarts, partitionPoint_append hreached hbehind, List.length_cons,
    length_startsBehindFeeds]
  refine ⟨rfl, _, ?_, startsLastLine_getLastD _⟩
  rw [List.getElem?_append_left (by simp [length_startsBehindFeeds])]
  rw [← length_startsBehindFeeds 0, List.getLastD_eq_getLast?]
  cases startsBehindFeeds 0 ((bytes source).take offset) with
  | nil => rfl
  | cons first rest => simp [List.getLast?_eq_getElem?]

theorem StartsLastLine.le_offset (h : StartsLastLine start (bs.take offset)) : start ≤ offset :=
  Nat.le_trans h.le_length (List.length_take_le offset bs)

/-! ## Lines and columns that are words -/

def feedsBefore (source : List Char) (offset : Nat) : Nat := ((bytes source).take offset).count lineFeed

theorem feedsBefore_le (source : List Char) (offset : Nat) : feedsBefore source offset ≤ offset :=
  Nat.le_trans List.count_le_length (List.length_take_le offset (bytes source))

/-- The largest offset, with no line feed before it or nothing else: its column or its line is no word. -/
def TooLarge (source : List Char) (offset : Nat) : Prop :=
  offset + 1 = wordSize ∧ (feedsBefore source offset = 0 ∨ feedsBefore source offset = offset)

instance (source : List Char) (offset : Nat) : Decidable (TooLarge source offset) :=
  inferInstanceAs (Decidable (_ ∧ _))

theorem StartsLastLine.eq_zero_iff_feeds (h : StartsLastLine start ((bytes source).take offset)) :
    start = 0 ↔ feedsBefore source offset = 0 := by
  rw [h.eq_zero_iff, feedsBefore, List.count_eq_zero]

/-- The line of an offset and its column are found, unless one of them is no word. -/
theorem position_eq (h : ¬Wraps source) (hword : offset < wordSize) :
    ∃ start, (lineStarts source)[feedsBefore source offset]? = some start ∧
      StartsLastLine start ((bytes source).take offset) ∧
      position source offset =
        if TooLarge source offset then .error .add
        else .ok ⟨1 + feedsBefore source offset, 1 + (offset - start)⟩ := by
  obtain ⟨hpoint, start, hstart, hline⟩ := partitionPoint_lineStarts h offset
  refine ⟨start, hstart, hline, ?_⟩
  have hle := hline.le_offset
  have hfeeds := feedsBefore_le source offset
  have hzero := hline.eq_zero_iff_feeds
  have hposition : position source offset = do
      let line ← addWord (feedsBefore source offset % wordSize) 1
      let column ← addWord (offset - start) 1
      return ⟨line, column⟩ := by
    simp only [position, hpoint, Nat.add_sub_cancel, List.getD_eq_getElem?_getD, hstart, Option.getD_some,
      subWord_of_le hle]
    rfl
  rw [hposition, Nat.mod_eq_of_lt (Nat.lt_of_le_of_lt hfeeds hword)]
  by_cases hlast : offset + 1 = wordSize
  · by_cases hall : feedsBefore source offset = offset
    · have hlarge : TooLarge source offset := ⟨hlast, .inr hall⟩
      rw [if_pos hlarge, addWord_of_le (by omega)]
      rfl
    · rw [addWord_of_lt (by omega)]
      by_cases hnone : feedsBefore source offset = 0
      · have hlarge : TooLarge source offset := ⟨hlast, .inl hnone⟩
        rw [if_pos hlarge, hzero.mpr hnone, addWord_of_le (by omega)]
        rfl
      · have hsmall : ¬TooLarge source offset := fun hlarge => hlarge.2.elim hnone hall
        have hpos : start ≠ 0 := fun hstart => hnone (hzero.mp hstart)
        rw [if_neg hsmall, addWord_of_lt (by omega), Nat.add_comm 1, Nat.add_comm 1]
        rfl
  · have hsmall : ¬TooLarge source offset := fun hlarge => hlast hlarge.1
    rw [if_neg hsmall, addWord_of_lt (by omega), addWord_of_lt (by omega), Nat.add_comm 1, Nat.add_comm 1]
    rfl

def Position.Before (p q : Position) : Prop :=
  p.line < q.line ∨ p.line = q.line ∧ p.column < q.column

theorem position_before (h : ¬Wraps source) {later : Nat} {p q : Position} (hlater : offset < later)
    (hword : later < wordSize) (hp : position source offset = .ok p)
    (hq : position source later = .ok q) : p.Before q := by
  obtain ⟨start, hstart, hline, heq⟩ := position_eq h (Nat.lt_trans hlater hword)
  obtain ⟨start', hstart', hline', heq'⟩ := position_eq h hword
  rw [hp] at heq
  rw [hq] at heq'
  split at heq
  · cases heq
  split at heq'
  · cases heq'
  cases heq
  cases heq'
  have hcount : feedsBefore source offset ≤ feedsBefore source later :=
    (List.take_sublist_take_left (Nat.le_of_lt hlater)).count_le _
  rcases Nat.lt_or_eq_of_le hcount with hless | hsame
  · exact .inl (Nat.add_lt_add_left hless 1)
  · -- On the same line both columns count from the same start.
    rw [← hsame, hstart] at hstart'
    cases hstart'
    have hle := hline.le_offset
    refine .inr ⟨by rw [hsame], ?_⟩
    change 1 + (offset - start) < 1 + (later - start)
    omega

theorem line_of_position {p : Position} (h : position source offset = .ok p) :
    p.line = (partitionPoint (· ≤ offset) (lineStarts source) - 1) % wordSize + 1 := by
  simp only [position] at h
  generalize (partitionPoint (· ≤ offset) (lineStarts source) - 1) = index at h ⊢
  by_cases hline : index % wordSize + 1 < wordSize
  · rw [addWord_of_lt hline] at h
    cases hpassed : subWord offset ((lineStarts source).getD index 0) with
    | error =>
        rw [hpassed] at h
        cases h
    | ok passed =>
        rw [hpassed] at h
        simp only [bind, Except.bind] at h
        cases hcolumn : addWord passed 1 with
        | error =>
            rw [hcolumn] at h
            cases h
        | ok column =>
            rw [hcolumn] at h
            cases h
            rfl
  · rw [addWord_of_le (Nat.not_lt.mp hline)] at h
    cases h

/-- At the largest offset every line feed counts, also one that stands behind it. -/
theorem line_at_largest {p : Position} (h : position source (wordSize - 1) = .ok p) :
    p.line = 1 + (bytes source).count lineFeed % wordSize := by
  have hreached : ∀ start ∈ lineStarts source, decide (start ≤ wordSize - 1) = true := by
    intro start hstart
    rw [lineStarts, lineStartsFrom_eq] at hstart
    refine decide_eq_true ?_
    rcases List.mem_cons.mp hstart with rfl | hstart
    · exact Nat.zero_le _
    · obtain ⟨n, -, rfl⟩ := List.mem_map.mp hstart
      have hlt := Nat.mod_lt n (show 0 < wordSize by decide)
      omega
  have hnone : ∀ start ∈ ([] : List Nat), decide (start ≤ wordSize - 1) = false :=
    fun start hstart => absurd hstart List.not_mem_nil
  have hpoint := partitionPoint_append hreached hnone
  rw [List.append_nil] at hpoint
  have hlength : (lineStarts source).length = (bytes source).count lineFeed + 1 := by
    rw [lineStarts, lineStartsFrom_eq, List.length_cons, List.length_map, length_startsBehindFeeds]
  rw [line_of_position h, hpoint, hlength, Nat.add_sub_cancel, Nat.add_comm]

/-- The line of an offset counts the line feed bytes before it, and its column counts the bytes from
the start of that line, which the table of starts holds. This does not depend on the offset being
one of the text, and the order of offsets is that of their positions. The largest offset has no
position if its line or its column is no word, and in a text in which the start of a line is no word its
line counts every line feed. -/
theorem position_of_bytes (source : List Char) (offset : Nat) (hword : offset < wordSize) :
    (¬Wraps source → (lineStarts source).Pairwise (· < ·) ∧
      ∃ start, (lineStarts source)[feedsBefore source offset]? = some start ∧
        start ≤ offset ∧
        (start = 0 ∨ ∃ i, start = i + 1 ∧ (bytes source)[i]? = some lineFeed) ∧
        (∀ i, start ≤ i → i < offset → (bytes source)[i]? ≠ some lineFeed) ∧
        (TooLarge source offset → position source offset = .error .add) ∧
        (¬TooLarge source offset → ∃ p, position source offset = .ok p ∧
          p.line = 1 + feedsBefore source offset ∧ p.column = 1 + (offset - start) ∧
          start + p.column - 1 = offset ∧
          ∀ later q, offset < later → later < wordSize → position source later = .ok q → p.Before q)) ∧
    (Wraps source → ∀ p, position source (wordSize - 1) = .ok p →
      p.line = 1 + (bytes source).count lineFeed % wordSize) := by
  refine ⟨fun hwraps => ⟨pairwise_lineStarts hwraps, ?_⟩, fun _ p => line_at_largest⟩
  obtain ⟨start, hstart, hline, hposition⟩ := position_eq hwraps hword
  have hle : start ≤ offset := hline.le_offset
  refine ⟨start, hstart, hle, ?_, fun i hi hbefore => ?_, fun hlarge => ?_, fun hsmall => ?_⟩
  · refine hline.begins.imp id ?_
    rintro ⟨i, rfl, hfeed⟩
    rw [List.getElem?_take_of_lt hle] at hfeed
    exact ⟨i, rfl, hfeed⟩
  · have hnone := hline.last i hi
    rwa [List.getElem?_take_of_lt hbefore] at hnone
  · rw [hposition, if_pos hlarge]
  · rw [if_neg hsmall] at hposition
    refine ⟨_, hposition, rfl, rfl, ?_, fun later q hlater hword' hq => ?_⟩
    · change start + (1 + (offset - start)) - 1 = offset
      omega
    · exact position_before hwraps hlater hword' hposition hq

theorem position_of_bytes_largest :
    ¬Wraps "é".toList ∧ TooLarge "é".toList 4294967295 ∧ position "é".toList 4294967295 = .error .add ∧
    ∃ p, position "é".toList 4294967294 = .ok p ∧ p.line = 1 ∧ p.column = 4294967295 := by
  have hwraps : ¬Wraps "é".toList := by
    rintro ⟨i, hfeed, -⟩
    have hmem : lineFeed ∈ bytes "é".toList := List.mem_of_getElem? hfeed
    revert hmem
    decide +kernel
  have hlarge : TooLarge "é".toList 4294967295 := by decide +kernel
  obtain ⟨-, _, -, -, -, -, hout, -⟩ :=
    (position_of_bytes "é".toList 4294967295 (by decide)).1 hwraps
  obtain ⟨-, start, -, -, hbegins, -, -, hin⟩ :=
    (position_of_bytes "é".toList 4294967294 (by decide)).1 hwraps
  obtain ⟨p, hp, hline, hcolumn, -⟩ := hin (by decide +kernel)
  refine ⟨hwraps, hlarge, hout hlarge, p, hp, ?_, ?_⟩
  · rw [hline]
    decide +kernel
  · have hstart : start = 0 := hbegins.resolve_right fun ⟨i, _, hfeed⟩ => by
      have hmem : lineFeed ∈ bytes "é".toList := List.mem_of_getElem? hfeed
      revert hmem
      decide +kernel
    rw [hcolumn, hstart]

-- A line feed ends its own line; the column counts the four bytes of the last character.
example : [0, 2, 3, 7, 9].map (fun offset => (position "é\n😀".toList offset).toOption) =
    [some ⟨1, 1⟩, some ⟨1, 3⟩, some ⟨2, 1⟩, some ⟨2, 5⟩, some ⟨2, 7⟩] := by decide +kernel

end ShellAwait.Text
