import DoorAccess.Config.Ini
import DoorAccess.Lib.ByteStream
import Mathlib.Data.List.TakeWhile

/-!
# The lines of an INI text

What the engine makes of one line: `Item` is what a line can say, `Spells` how it is written with
blanks where they do not count, and `Holds` a whole line, with blanks around the item and perhaps a
comment behind it. The stripping of comments, the reading of headers and the splitting of entries
each look at the quotes on their own; `line_holds` says that together they read what is between two
quotes as it stands there, and `parseIni_of_leads` what becomes of a text of such lines.
-/

set_option autoImplicit false
set_option relaxedAutoImplicit false

namespace DoorAccess.Config

open AutomationState (trim isWhiteSpace)
open ByteStream (idxOf?_of_not_mem)

/-! ### What a line says -/

/-- What a line says: a key with its value, a header, or a header with a subname. -/
inductive Item
  | entry (key value : Text)
  | header (sect : Text)
  | subheader (sect subname : Text)

/-- Spaces and tabs. -/
def Blanks (s : Text) : Prop :=
  ∀ c ∈ s, c = ' ' ∨ c = '\t'

instance (s : Text) : Decidable (Blanks s) :=
  List.decidableBAll (fun c ↦ c = ' ' ∨ c = '\t') s

theorem blanks_nil : Blanks [] := by
  decide

theorem blanks_space : Blanks [' '] := by
  decide

/-- The beginning of a comment. -/
def startsComment (c : Char) : Bool :=
  c == ';' || c == '#'

/-- How an item is written, its value or its subname in quotes. -/
inductive Spells : Item → Text → Prop
  | entry {key value b b' : Text} : Blanks b → Blanks b' →
      Spells (.entry key value) (key ++ b ++ '=' :: b' ++ '"' :: value ++ ['"'])
  | header {sect b b' : Text} : Blanks b → Blanks b' →
      Spells (.header sect) ('[' :: b ++ sect ++ b' ++ [']'])
  | subheader {sect subname b b' b'' : Text} : Blanks b → Blanks b' → Blanks b'' →
      Spells (.subheader sect subname)
        ('[' :: b ++ sect ++ ' ' :: b' ++ '"' :: subname ++ '"' :: b'' ++ [']'])

/-- A line that holds an item. -/
inductive Holds (item : Item) : Text → Prop
  | plain {before core after : Text} : Blanks before → Spells item core → Blanks after →
      Holds item (before ++ core ++ after)
  | commented {before core after text : Text} {c : Char} : Blanks before → Spells item core →
      Blanks after → startsComment c = true → '\n' ∉ text →
      Holds item (before ++ core ++ after ++ c :: text)

/-- A line that holds nothing. -/
inductive Idle : Text → Prop
  | blank {s : Text} : Blanks s → Idle s
  | comment {before text : Text} {c : Char} : Blanks before → startsComment c = true →
      '\n' ∉ text → Idle (before ++ c :: text)

/-! ### Trimming -/

theorem isWhiteSpace_of_blanks {s : Text} (h : Blanks s) : ∀ c ∈ s, isWhiteSpace c = true := by
  intro c hc
  rcases h c hc with rfl | rfl
  · decide
  · decide

theorem Blanks.not_mem {s : Text} (h : Blanks s) {c : Char} (hspace : c ≠ ' ') (htab : c ≠ '\t') :
    c ∉ s :=
  fun hmem ↦ (h c hmem).elim hspace htab

theorem blanks_newline {s : Text} (h : Blanks s) : '\n' ∉ s :=
  h.not_mem (by decide) (by decide)

theorem dropWhile_append_visible {p : Char → Bool} {c : Char} (hc : p c = false) (s t : Text) :
    (s ++ c :: t).dropWhile p = s.dropWhile p ++ c :: t := by
  rw [List.dropWhile_append, List.dropWhile_cons_of_neg (by simp [hc])]
  split_ifs with hempty
  · rw [List.isEmpty_iff.mp hempty, List.nil_append]
  · rfl

theorem dropWhile_all {p : Char → Bool} {s : Text} (h : ∀ c ∈ s, p c = true) (t : Text) :
    (s ++ t).dropWhile p = t.dropWhile p := by
  rw [List.dropWhile_append, List.dropWhile_eq_nil_iff.mpr h]
  rfl

theorem trim_blanks_append {s : Text} (h : Blanks s) (t : Text) : trim (s ++ t) = trim t := by
  rw [trim, trim, dropWhile_all (isWhiteSpace_of_blanks h)]

/-- Behind a visible first character, only the end is trimmed. -/
theorem trim_cons {c : Char} (hc : isWhiteSpace c = false) (s : Text) :
    trim (c :: s) = c :: (s.reverse.dropWhile isWhiteSpace).reverse := by
  rw [trim, List.dropWhile_cons_of_neg (by simp [hc]), List.reverse_cons,
    dropWhile_append_visible hc, List.reverse_append, List.reverse_singleton]
  rfl

/-- The text starts and ends with a visible character. -/
def Visible (s : Text) : Prop :=
  (∃ c, s.head? = some c ∧ isWhiteSpace c = false) ∧
    ∃ c, s.getLast? = some c ∧ isWhiteSpace c = false

/-- What is dropped from the end stops at the first character that stays. -/
theorem reverse_dropWhile_append {p : Char → Bool} {s b : Text} {d : Char}
    (hlast : s.getLast? = some d) (hd : p d = false) (hb : ∀ e ∈ b, p e = true) :
    ((s ++ b).reverse.dropWhile p).reverse = s := by
  obtain ⟨u, rfl⟩ := List.getLast?_eq_some_iff.mp hlast
  have hreverse : ∀ e ∈ b.reverse, p e = true := fun e he ↦ hb e (List.mem_reverse.mp he)
  rw [List.reverse_append, dropWhile_all hreverse, List.reverse_append, List.reverse_singleton,
    List.singleton_append, List.dropWhile_cons_of_neg (by simp [hd]), List.reverse_cons,
    List.reverse_reverse]

theorem trim_append_blanks {s b : Text} (hs : Visible s) (hb : Blanks b) : trim (s ++ b) = s := by
  obtain ⟨⟨c, hhead, hc⟩, d, hlast, hd⟩ := hs
  have hstart : (s ++ b).dropWhile isWhiteSpace = s ++ b := by
    obtain ⟨t, rfl⟩ := List.head?_eq_some_iff.mp hhead
    rw [List.cons_append, List.dropWhile_cons_of_neg (by simp [hc])]
  rw [trim, hstart, reverse_dropWhile_append hlast hd (isWhiteSpace_of_blanks hb)]

theorem trim_visible {s : Text} (hs : Visible s) : trim s = s := by
  have h := trim_append_blanks hs blanks_nil
  rwa [List.append_nil] at h

theorem trim_between {b s b' : Text} (hb : Blanks b) (hs : Visible s) (hb' : Blanks b') :
    trim (b ++ s ++ b') = s := by
  rw [List.append_assoc, trim_blanks_append hb, trim_append_blanks hs hb']

/-! ### Comments -/

theorem startsComment_iff {c : Char} : startsComment c = true ↔ c = ';' ∨ c = '#' := by
  rw [startsComment, Bool.or_eq_true, beq_iff_eq, beq_iff_eq]

theorem startsComment_eq_false {c : Char} : startsComment c = false ↔ ¬(c = ';' ∨ c = '#') := by
  rw [← startsComment_iff, Bool.not_eq_true]

theorem newline_ne_of_startsComment {c : Char} (hc : startsComment c = true) : '\n' ≠ c := by
  rintro rfl
  exact absurd hc (by decide)

/-- No character of the text opens a quote or a comment. -/
def Inert (s : Text) : Prop :=
  ∀ c ∈ s, c ≠ '"' ∧ startsComment c = false

theorem cutComment_inert {s : Text} (h : Inert s) (t : Text) :
    cutComment false (s ++ t) = s ++ cutComment false t := by
  induction s with
  | nil => rfl
  | cons c s ih =>
    obtain ⟨⟨hquote, hcomment⟩, hrest⟩ := List.forall_mem_cons.mp h
    rw [List.cons_append, cutComment, if_neg hquote,
      if_neg (fun h ↦ startsComment_eq_false.mp hcomment h.2), ih hrest, List.cons_append]

theorem cutComment_quoted {s : Text} (h : '"' ∉ s) (t : Text) :
    cutComment false ('"' :: s ++ '"' :: t) = '"' :: s ++ '"' :: cutComment false t := by
  have hinside : cutComment true (s ++ '"' :: t) = s ++ '"' :: cutComment false t := by
    induction s with
    | nil => rfl
    | cons c s ih =>
      rw [List.mem_cons, not_or] at h
      rw [List.cons_append, cutComment, if_neg (Ne.symm h.1), if_neg (fun h ↦ nomatch h.1),
        ih h.2, List.cons_append]
  rw [List.cons_append, cutComment, if_pos rfl, Bool.not_false, hinside, List.cons_append]

/-- What the engine gets to see of a line whose comment is cut off and whose ends are trimmed. -/
structure Core (core : Text) : Prop where
  visible : Visible core
  head : ∀ c, core.head? = some c → startsComment c = false
  cut : ∀ t, cutComment false (core ++ t) = core ++ cutComment false t

theorem blanks_inert {s : Text} (h : Blanks s) : Inert s := by
  intro c hc
  rcases h c hc with rfl | rfl
  · decide
  · decide

theorem trimEndBlanks_append {s b : Text} (hs : Visible s) (hb : Blanks b) :
    trimEndBlanks (s ++ b) = s := by
  obtain ⟨-, d, hlast, hd⟩ := hs
  have hblanks : ∀ e ∈ b, (e == ' ' || e == '\t') = true := by
    intro e he
    rw [Bool.or_eq_true, beq_iff_eq, beq_iff_eq]
    exact hb e he
  have hvisible : (d == ' ' || d == '\t') = false := by
    rw [Bool.or_eq_false_iff, beq_eq_false_iff_ne, beq_eq_false_iff_ne]
    constructor
    · rintro rfl
      exact absurd hd (by decide)
    · rintro rfl
      exact absurd hd (by decide)
  exact reverse_dropWhile_append hlast hvisible hblanks

/-- A core, blanks and perhaps a comment: only the core is left. -/
theorem strip_core {core after rest : Text} (h : Core core) (hafter : Blanks after)
    (hrest : cutComment false rest = []) :
    core ++ after ++ rest ≠ [] ∧
    ¬((core ++ after ++ rest).head? = some ';' ∨ (core ++ after ++ rest).head? = some '#') ∧
    trimEndBlanks (cutComment false (core ++ after ++ rest)) = core := by
  obtain ⟨c, hhead, -⟩ := h.visible.1
  obtain ⟨t, ht⟩ := List.head?_eq_some_iff.mp hhead
  have hhead' : (core ++ after ++ rest).head? = some c := by
    rw [ht]
    rfl
  have hcomment := startsComment_eq_false.mp (h.head c hhead)
  refine ⟨fun hnil ↦ ?_, ?_, ?_⟩
  · rw [hnil] at hhead'
    exact nomatch hhead'
  · rw [hhead', Option.some.injEq, Option.some.injEq]
    exact hcomment
  · rw [List.append_assoc, h.cut, cutComment_inert (blanks_inert hafter), hrest, List.append_nil,
      trimEndBlanks_append h.visible hafter]

theorem stripCommentTrim_core {core before after : Text} (h : Core core) (hbefore : Blanks before)
    (hafter : Blanks after) : stripCommentTrim (before ++ core ++ after) = some core := by
  have hrest : cutComment false [] = [] := rfl
  obtain ⟨hne, hhead, hcut⟩ := strip_core h blanks_nil hrest
  rw [List.append_nil, List.append_nil] at hne hhead hcut
  rw [stripCommentTrim, trim_between hbefore h.visible hafter]
  simp only [if_neg hne, if_neg hhead, hcut]

theorem stripCommentTrim_comment {core before after text : Text} {c : Char} (h : Core core)
    (hbefore : Blanks before) (hafter : Blanks after) (hc : startsComment c = true) :
    stripCommentTrim (before ++ core ++ after ++ c :: text) = some core := by
  -- The comment loses blanks at its end, but not its first character.
  have hvisible : isWhiteSpace c = false := by
    rcases startsComment_iff.mp hc with rfl | rfl
    · decide
    · decide
  have htrim : ∃ text', trim (before ++ core ++ after ++ c :: text) =
      core ++ after ++ c :: text' := by
    obtain ⟨⟨d, hhead, hd⟩, -⟩ := h.visible
    obtain ⟨t, rfl⟩ := List.head?_eq_some_iff.mp hhead
    refine ⟨(text.reverse.dropWhile isWhiteSpace).reverse, ?_⟩
    simp only [List.append_assoc, List.cons_append]
    rw [trim_blanks_append hbefore, trim_cons hd]
    have hreverse : (t ++ (after ++ c :: text)).reverse =
        text.reverse ++ c :: (after.reverse ++ t.reverse) := by simp
    rw [hreverse, dropWhile_append_visible hvisible]
    simp
  obtain ⟨text', htrim⟩ := htrim
  have hrest : cutComment false (c :: text') = [] := by
    rcases startsComment_iff.mp hc with rfl | rfl
    · rfl
    · rfl
  obtain ⟨hne, hhead, hcut⟩ := strip_core h hafter hrest
  obtain ⟨d, hsome, -⟩ := h.visible.1
  have hcore : core ≠ [] := by
    rintro rfl
    exact nomatch hsome
  rw [stripCommentTrim, htrim]
  simp only [if_neg hne, if_neg hhead, hcut, if_neg hcore]

theorem stripCommentTrim_idle {line : Text} (h : Idle line) : stripCommentTrim line = none := by
  cases h with
  | blank hs =>
    have htrim : trim line = [] := by
      rw [trim, List.dropWhile_eq_nil_iff.mpr (isWhiteSpace_of_blanks hs)]
      rfl
    rw [stripCommentTrim, htrim]
    rfl
  | comment hbefore hc hnewline =>
    rcases startsComment_iff.mp hc with rfl | rfl
    · rw [stripCommentTrim, trim_blanks_append hbefore, trim_cons (by decide)]
      rfl
    · rw [stripCommentTrim, trim_blanks_append hbefore, trim_cons (by decide)]
      rfl

/-! ### Items -/

/-- A character of a name. -/
def isWordChar (c : Char) : Bool :=
  !isWhiteSpace c && c != '"' && !startsComment c && c != '=' && c != '['

/-- A key or the name of a section. -/
def Word (s : Text) : Prop :=
  s ≠ [] ∧ s.all isWordChar = true

instance (s : Text) : Decidable (Word s) :=
  inferInstanceAs (Decidable (_ ∧ _))

section Word

variable {s : Text}

theorem Word.char (h : Word s) {c : Char} (hc : c ∈ s) :
    isWhiteSpace c = false ∧ c ≠ '"' ∧ startsComment c = false ∧ c ≠ '=' ∧ c ≠ '[' := by
  have hword := List.all_eq_true.mp h.2 c hc
  simp only [isWordChar, Bool.and_eq_true, Bool.not_eq_true', bne_iff_ne] at hword
  obtain ⟨⟨⟨⟨hspace, hquote⟩, hcomment⟩, heq⟩, hbracket⟩ := hword
  exact ⟨hspace, hquote, hcomment, heq, hbracket⟩

theorem Word.inert (h : Word s) : Inert s :=
  fun _ hc ↦ ⟨(h.char hc).2.1, (h.char hc).2.2.1⟩

theorem Word.head (h : Word s) : ∃ c t, s = c :: t ∧ c ∈ s := by
  obtain ⟨c, t, rfl⟩ := List.exists_cons_of_ne_nil h.1
  exact ⟨c, t, rfl, List.mem_cons_self⟩

theorem Word.visible (h : Word s) : Visible s := by
  obtain ⟨c, t, hs, hc⟩ := h.head
  have hlast := List.getLast?_eq_some_getLast h.1
  exact ⟨⟨c, by rw [hs]; rfl, (h.char hc).1⟩, _, hlast, (h.char (List.getLast_mem h.1)).1⟩

/-- A text that starts with a word and ends with a quotation mark. -/
theorem Word.visible_append (h : Word s) (t : Text) : Visible (s ++ t ++ ['"']) := by
  obtain ⟨c, u, rfl, hc⟩ := h.head
  exact ⟨⟨c, rfl, (h.char hc).1⟩, '"', List.getLast?_concat, by decide⟩

theorem Word.not_mem (h : Word s) {c : Char} (hc : isWordChar c = false) : c ∉ s := by
  intro hmem
  rw [List.all_eq_true.mp h.2 c hmem] at hc
  exact nomatch hc

end Word

theorem isQuoted_quoted (s : Text) : isQuoted ('"' :: s ++ ['"']) = true := by
  have hlast : ('"' :: s ++ ['"']).getLast? = some '"' := List.getLast?_concat
  rw [isQuoted, hlast]
  simp

theorem unquote_between (c d : Char) (s : Text) : unquote (c :: s ++ [d]) = s := by
  rw [unquote, List.cons_append, List.tail_cons, List.dropLast_concat]

theorem visible_quoted (s : Text) : Visible ('"' :: s ++ ['"']) :=
  ⟨⟨'"', rfl, by decide⟩, '"', List.getLast?_concat, by decide⟩

theorem parseKeyValue_entry {key b b' : Text} (hkey : Word key) (hb : Blanks b) (hb' : Blanks b')
    (value : Text) :
    parseKeyValue (key ++ b ++ '=' :: b' ++ '"' :: value ++ ['"']) = .ok (key, value) := by
  have heq : '=' ∉ key ++ b := by
    rw [List.mem_append, not_or]
    exact ⟨hkey.not_mem (by decide), hb.not_mem (by decide) (by decide)⟩
  have hsplit : key ++ b ++ '=' :: b' ++ '"' :: value ++ ['"'] =
      key ++ b ++ '=' :: (b' ++ ('"' :: value ++ ['"'])) := by simp
  have hleft : trim (key ++ b) = key := trim_append_blanks hkey.visible hb
  have hright : trim (b' ++ ('"' :: value ++ ['"'])) = '"' :: value ++ ['"'] := by
    rw [trim_blanks_append hb', trim_visible (visible_quoted value)]
  rw [hsplit, parseKeyValue, idxOf?_of_not_mem heq]
  simp only [List.take_left, List.drop_length_add_append, List.drop_one, List.tail_cons, hleft,
    hright, if_neg hkey.1, isQuoted_quoted, if_true, unquote_between]

theorem three_le_byteLen {s : Text} (h : 3 ≤ s.length) : ¬byteLen s < 3 :=
  Nat.not_lt.mpr (h.trans (Utf8.length_le_encode s))

theorem parseSectionHeader_header {sect b b' : Text} (hsect : Word sect) (hb : Blanks b)
    (hb' : Blanks b') : parseSectionHeader ('[' :: b ++ sect ++ b' ++ [']']) = .ok (sect, []) := by
  have hsplit : '[' :: b ++ sect ++ b' ++ [']'] = '[' :: (b ++ sect ++ b') ++ [']'] := by simp
  have hlast : ('[' :: (b ++ sect ++ b') ++ [']']).getLast? = some ']' := List.getLast?_concat
  have hlength := List.length_pos_iff.mpr hsect.1
  have hspace : sect.idxOf? ' ' = none :=
    List.idxOf?_eq_none_iff.mpr (hsect.not_mem (by decide))
  have hshort : ¬byteLen ('[' :: (b ++ sect ++ b') ++ [']']) < 3 :=
    three_le_byteLen (by simp only [List.length_append, List.length_cons, List.length_nil]; omega)
  rw [hsplit, parseSectionHeader, if_neg (not_or.mpr ⟨hshort, not_not.mpr hlast⟩)]
  simp only [unquote_between, trim_between hb hsect.visible hb', if_neg hsect.1, hspace]

theorem parseSectionHeader_subheader {sect b b' b'' : Text} (hsect : Word sect) (hb : Blanks b)
    (hb' : Blanks b') (hb'' : Blanks b'') (subname : Text) :
    parseSectionHeader
        ('[' :: b ++ sect ++ ' ' :: b' ++ '"' :: subname ++ '"' :: b'' ++ [']']) =
      .ok (sect, subname) := by
  have hsplit : '[' :: b ++ sect ++ ' ' :: b' ++ '"' :: subname ++ '"' :: b'' ++ [']'] =
      '[' :: (b ++ (sect ++ (' ' :: b' ++ '"' :: subname) ++ ['"']) ++ b'') ++ [']'] := by simp
  have hinner : trim (b ++ (sect ++ (' ' :: b' ++ '"' :: subname) ++ ['"']) ++ b'') =
      sect ++ ' ' :: (b' ++ ('"' :: subname ++ ['"'])) := by
    rw [trim_between hb (hsect.visible_append _) hb'']
    simp
  have hlast : ('[' :: (b ++ (sect ++ (' ' :: b' ++ '"' :: subname) ++ ['"']) ++ b'') ++
      [']']).getLast? = some ']' := List.getLast?_concat
  have hshort : ¬byteLen ('[' :: (b ++ (sect ++ (' ' :: b' ++ '"' :: subname) ++ ['"']) ++ b'') ++
      [']']) < 3 :=
    three_le_byteLen (by simp only [List.length_append, List.length_cons, List.length_nil]; omega)
  have hspace := idxOf?_of_not_mem (hsect.not_mem (c := ' ') (by decide))
    (b' ++ ('"' :: subname ++ ['"']))
  have hright : trim (b' ++ ('"' :: subname ++ ['"'])) = '"' :: subname ++ ['"'] := by
    rw [trim_blanks_append hb', trim_visible (visible_quoted subname)]
  obtain ⟨n, hn⟩ : ∃ n, sect.length = n + 1 :=
    Nat.exists_eq_succ_of_ne_zero fun hzero ↦ hsect.1 (List.length_eq_zero_iff.mp hzero)
  have htake : (sect ++ ' ' :: (b' ++ ('"' :: subname ++ ['"']))).take (n + 1) = sect := by
    rw [← hn, List.take_left]
  have hdrop : (sect ++ ' ' :: (b' ++ ('"' :: subname ++ ['"']))).drop (n + 1 + 1) =
      b' ++ ('"' :: subname ++ ['"']) := by
    rw [← hn, List.drop_length_add_append]
    rfl
  have hne : sect ++ ' ' :: (b' ++ ('"' :: subname ++ ['"'])) ≠ [] :=
    fun h ↦ hsect.1 (List.append_eq_nil_iff.mp h).1
  rw [hn] at hspace
  rw [hsplit, parseSectionHeader, if_neg (not_or.mpr ⟨hshort, not_not.mpr hlast⟩)]
  simp only [unquote_between, hinner, if_neg hne, hspace, htake, hdrop, hright,
    trim_visible hsect.visible, isQuoted_quoted, if_true]

/-! ### Lines with items -/

/-- Keys and sections are words, and nothing in quotes holds a quote. -/
def Item.Proper : Item → Prop
  | .entry key value => Word key ∧ '"' ∉ value
  | .header sect => Word sect
  | .subheader sect subname => Word sect ∧ '"' ∉ subname

/-- Nothing in quotes goes over the end of the line. -/
def Item.OneLine : Item → Prop
  | .entry _ value => '\n' ∉ value
  | .header _ => True
  | .subheader _ subname => '\n' ∉ subname

theorem Inert.append {s t : Text} (hs : Inert s) (ht : Inert t) : Inert (s ++ t) :=
  List.forall_mem_append.mpr ⟨hs, ht⟩

theorem Inert.cons {c : Char} {s : Text} (hc : c ≠ '"' ∧ startsComment c = false) (hs : Inert s) :
    Inert (c :: s) :=
  List.forall_mem_cons.mpr ⟨hc, hs⟩

variable {item : Item} {text line : Text}

theorem Spells.core (h : Spells item text) (hitem : item.Proper) : Core text := by
  cases h with
  | entry hb hb' =>
    rename_i key value b b'
    obtain ⟨hkey, hvalue⟩ := hitem
    obtain ⟨c, t, rfl, hc⟩ := hkey.head
    refine ⟨?_, ?_, fun rest ↦ ?_⟩
    · have hvisible := hkey.visible_append (b ++ '=' :: b' ++ '"' :: value)
      simpa using hvisible
    · intro d hd
      obtain rfl : c = d := Option.some.inj hd
      exact (hkey.char hc).2.2.1
    · have hinert : Inert (c :: t ++ b ++ '=' :: b') :=
        (hkey.inert.append (blanks_inert hb)).append (.cons (by decide) (blanks_inert hb'))
      have hsplit (rest : Text) : c :: t ++ b ++ '=' :: b' ++ '"' :: value ++ ['"'] ++ rest =
          (c :: t ++ b ++ '=' :: b') ++ ('"' :: value ++ '"' :: rest) := by simp
      rw [hsplit, hsplit, cutComment_inert hinert, cutComment_quoted hvalue]
  | header hb hb' =>
    rename_i sect b b'
    refine ⟨⟨⟨'[', rfl, by decide⟩, ']', List.getLast?_concat, by decide⟩, ?_, fun rest ↦ ?_⟩
    · intro d hd
      obtain rfl : '[' = d := Option.some.inj hd
      decide
    · exact cutComment_inert (((Inert.cons (by decide) (blanks_inert hb)).append
        (Word.inert hitem)).append (blanks_inert hb') |>.append
        (.cons (by decide) fun _ hmem ↦ absurd hmem List.not_mem_nil)) rest
  | subheader hb hb' hb'' =>
    rename_i sect subname b b' b''
    obtain ⟨hsect, hsubname⟩ := hitem
    refine ⟨⟨⟨'[', rfl, by decide⟩, ']', List.getLast?_concat, by decide⟩, ?_, fun rest ↦ ?_⟩
    · intro d hd
      obtain rfl : '[' = d := Option.some.inj hd
      decide
    · have hleft : Inert ('[' :: b ++ sect ++ ' ' :: b') :=
        ((Inert.cons (by decide) (blanks_inert hb)).append hsect.inert).append
          (.cons (by decide) (blanks_inert hb'))
      have hright : Inert (b'' ++ [']']) :=
        (blanks_inert hb'').append (.cons (by decide) fun _ hmem ↦ absurd hmem List.not_mem_nil)
      have hsplit (rest : Text) :
          '[' :: b ++ sect ++ ' ' :: b' ++ '"' :: subname ++ '"' :: b'' ++ [']'] ++ rest =
          ('[' :: b ++ sect ++ ' ' :: b') ++
            ('"' :: subname ++ '"' :: ((b'' ++ [']']) ++ rest)) := by simp
      rw [hsplit, hsplit, cutComment_inert hleft, cutComment_quoted hsubname,
        cutComment_inert hright]

theorem Holds.stripCommentTrim (h : Holds item line) (hitem : item.Proper) :
    ∃ core, Spells item core ∧ stripCommentTrim line = some core := by
  cases h with
  | plain hbefore hcore hafter =>
    exact ⟨_, hcore, stripCommentTrim_core (hcore.core hitem) hbefore hafter⟩
  | commented hbefore hcore hafter hc _ =>
    exact ⟨_, hcore, stripCommentTrim_comment (hcore.core hitem) hbefore hafter hc⟩

theorem Word.newline {s : Text} (h : Word s) : '\n' ∉ s :=
  h.not_mem (by decide)

theorem Spells.newline (h : Spells item text) (hitem : item.Proper) (hline : item.OneLine) :
    '\n' ∉ text := by
  cases h with
  | entry hb hb' =>
    have hvalue : '\n' ∉ _ := hline
    simp [hitem.1.newline, blanks_newline hb, blanks_newline hb', hvalue]
  | header hb hb' =>
    simp [Word.newline hitem, blanks_newline hb, blanks_newline hb']
  | subheader hb hb' hb'' =>
    have hsubname : '\n' ∉ _ := hline
    simp [hitem.1.newline, blanks_newline hb, blanks_newline hb', blanks_newline hb'', hsubname]

theorem Holds.newline (h : Holds item line) (hitem : item.Proper) (hline : item.OneLine) :
    '\n' ∉ line := by
  cases h with
  | plain hbefore hcore hafter =>
    simp [blanks_newline hbefore, hcore.newline hitem hline, blanks_newline hafter]
  | commented hbefore hcore hafter hc htext =>
    rename_i c
    have hfeed := newline_ne_of_startsComment hc
    simp [blanks_newline hbefore, hcore.newline hitem hline, blanks_newline hafter, htext, hfeed]

theorem Idle.newline (h : Idle line) : '\n' ∉ line := by
  cases h with
  | blank hs => exact blanks_newline hs
  | comment hbefore hc htext =>
    rename_i c
    have hfeed := newline_ne_of_startsComment hc
    simp [blanks_newline hbefore, htext, hfeed]

/-! ### The engine on items -/

section Engine

variable {S : Type} [IniSink S]

/-- What the engine does with a header that it has read. -/
def ParseState.enter (s : ParseState S) (sect sub : Text) : ParseState S :=
  let warnings :=
    if sect ≠ [] ∧ sub = [] then
      if IniSink.sectionKnown s.sink sect then [] else [.unknownSection sect]
    else if sect ≠ [] ∧ sub ≠ [] ∧ IniSink.sectionKnown s.sink sect = false then
      [.unknownSubsection sect sub]
    else []
  { s with sect := sect, subname := sub, warnings := s.warnings ++ warnings }

/-- What the engine does with an entry that it has read. -/
def ParseState.entry (s : ParseState S) (lineNo : ℕ) (key value : Text) :
    Except ConfigError (ParseState S) :=
  if s.sect = [] then s.outcome lineNo (IniSink.setTop s.sink key value) (.unknownKey key)
  else if IniSink.sectionKnown s.sink s.sect = false then .ok s
  else if s.subname = [] then
    if IniSink.sectionIsStruct s.sink s.sect then
      s.outcome lineNo (IniSink.setSection s.sink s.sect key value) (.unknownKeyIn key s.sect)
    else .error (.parse lineNo (.expectedStruct s.sect))
  else if IniSink.sectionIsSlice s.sink s.sect then
    let s := s.lazyAppend
    s.outcome lineNo (IniSink.setSubsection s.sink s.sect key value)
      (.unknownKeyInSubsection key s.sect s.subname)
  else .error (.parse lineNo (.expectedSlice s.sect s.subname))

/-- The engine on an item. -/
def Item.run (s : ParseState S) (lineNo : ℕ) : Item → Except ConfigError (ParseState S)
  | .entry key value => s.entry lineNo key value
  | .header sect => .ok (s.enter sect [])
  | .subheader sect subname => .ok (s.enter sect subname)

theorem header_eq {s : ParseState S} {line sect sub : Text} (lineNo : ℕ)
    (h : parseSectionHeader line = .ok (sect, sub)) :
    s.header lineNo line = .ok (s.enter sect sub) := by
  rw [ParseState.header, h]
  rfl

theorem keyValue_eq {s : ParseState S} {line key value : Text} (lineNo : ℕ)
    (h : parseKeyValue line = .ok (key, value)) :
    s.keyValue lineNo line = s.entry lineNo key value := by
  rw [ParseState.keyValue, h]
  rfl

/-- A line that holds an item does what the item says. -/
theorem line_holds {s : ParseState S} {item : Item} {line : Text} (h : Holds item line)
    (hitem : item.Proper) (hshort : byteLen line < 1048576) (lineNo : ℕ) :
    s.line lineNo line = item.run s lineNo := by
  obtain ⟨core, hcore, hstrip⟩ := h.stripCommentTrim hitem
  rw [ParseState.line, if_neg (Nat.not_le.mpr hshort), hstrip]
  cases hcore with
  | entry hb hb' =>
    rename_i key value b b'
    obtain ⟨c, t, rfl, hc⟩ := hitem.1.head
    have hbracket : (c :: t ++ b ++ '=' :: b' ++ '"' :: value ++ ['"']).head? ≠ some '[' :=
      fun h ↦ (hitem.1.char hc).2.2.2.2 (Option.some.inj h)
    simp only [if_neg hbracket]
    exact keyValue_eq lineNo (parseKeyValue_entry hitem.1 hb hb' value)
  | header hb hb' =>
    exact header_eq lineNo (parseSectionHeader_header hitem hb hb')
  | subheader hb hb' hb'' =>
    exact header_eq lineNo (parseSectionHeader_subheader hitem.1 hb hb' hb'' _)

theorem line_idle {s : ParseState S} {line : Text} (h : Idle line)
    (hshort : byteLen line < 1048576) (lineNo : ℕ) : s.line lineNo line = .ok s := by
  rw [ParseState.line, if_neg (Nat.not_le.mpr hshort), stripCommentTrim_idle h]

/-- The lines hold these items in this order and nothing else. -/
inductive Lists : List Item → List Text → Prop
  | nil : Lists [] []
  | idle {items : List Item} {line : Text} {lines : List Text} : Idle line → Lists items lines →
      Lists items (line :: lines)
  | item {item : Item} {items : List Item} {line : Text} {lines : List Text} : Holds item line →
      Lists items lines → Lists (item :: items) (line :: lines)

/-- Items that take the engine from one state to another without an error, whatever lines they
are on. -/
inductive Leads : ParseState S → List Item → ParseState S → Prop
  | nil {s : ParseState S} : Leads s [] s
  | cons {s t u : ParseState S} {item : Item} {items : List Item} :
      (∀ lineNo, item.run s lineNo = .ok t) → Leads t items u → Leads s (item :: items) u

theorem Leads.append {s t u : ParseState S} {items more : List Item} (h : Leads s items t)
    (h' : Leads t more u) : Leads s (items ++ more) u := by
  induction h with
  | nil => exact h'
  | cons hrun _ ih => exact .cons hrun (ih h')

theorem foldlM_of_leads {items : List Item} {lines : List Text} (h : Lists items lines)
    (hitems : ∀ item ∈ items, item.Proper) (hshort : ∀ line ∈ lines, byteLen line < 1048576)
    {s t : ParseState S} (hleads : Leads s items t) (lineNo : ℕ) :
    (lines.zipIdx lineNo).foldlM (fun s line ↦ s.line line.2 line.1) s = .ok t := by
  induction h generalizing s lineNo with
  | nil =>
    cases hleads
    rfl
  | idle hidle _ ih =>
    obtain ⟨hline, hlines⟩ := List.forall_mem_cons.mp hshort
    rw [List.zipIdx_cons, List.foldlM_cons, line_idle hidle hline]
    exact ih hitems hlines hleads _
  | item hholds _ ih =>
    obtain ⟨hline, hlines⟩ := List.forall_mem_cons.mp hshort
    obtain ⟨hitem, hrest⟩ := List.forall_mem_cons.mp hitems
    cases hleads with
    | cons hrun hleads =>
      rw [List.zipIdx_cons, List.foldlM_cons, line_holds hholds hitem hline, hrun]
      exact ih hrest hlines hleads _

theorem Lists.newline {items : List Item} {lines : List Text} (h : Lists items lines)
    (hitems : ∀ item ∈ items, item.Proper ∧ item.OneLine) : ∀ line ∈ lines, '\n' ∉ line := by
  induction h with
  | nil => exact List.forall_mem_nil _
  | idle hidle _ ih => exact List.forall_mem_cons.mpr ⟨hidle.newline, ih hitems⟩
  | item hholds _ ih =>
    obtain ⟨⟨hproper, hline⟩, hrest⟩ := List.forall_mem_cons.mp hitems
    exact List.forall_mem_cons.mpr ⟨hholds.newline hproper hline, ih hrest⟩

theorem Lists.ne_nil {items : List Item} {lines : List Text} (h : Lists items lines)
    (hne : items ≠ []) : lines ≠ [] := by
  cases h with
  | nil => exact absurd rfl hne
  | idle | item => exact List.cons_ne_nil _ _

/-- A text whose lines hold items is read as these items. -/
theorem parseIni_of_leads {items : List Item} {lines : List Text} (h : Lists items lines)
    (hne : items ≠ []) (hitems : ∀ item ∈ items, item.Proper ∧ item.OneLine)
    (hshort : ∀ line ∈ lines, byteLen line < 1048576) {sink : S} {t : ParseState S}
    (hleads : Leads (.start sink) items t) :
    parseIni (['\n'].intercalate lines) sink = .ok (t.sink, t.warnings) := by
  have hsplit : (['\n'].intercalate lines).splitOn '\n' = lines :=
    List.splitOn_intercalate '\n' (h.newline hitems) (h.ne_nil hne)
  rw [parseIni, hsplit, foldlM_of_leads h (fun item hmem ↦ (hitems item hmem).1) hshort hleads]
  rfl

end Engine

end DoorAccess.Config
