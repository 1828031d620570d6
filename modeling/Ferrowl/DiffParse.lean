import Ferrowl.DiffFormat
/-!
# DiffParse — the parser loses and invents nothing

Whatever the text, its lines are cut at the hunk headers, and the rows of `parse` are those of the lines before the first header,
in order, and for each hunk its header and the rows of its body.  These carry the lines of both sides with consecutive numbers,
and every other line of the body once.
-/
namespace Ferrowl.Ui.DiffView

open List

/-! ## The lines of a diff -/

def oldText : Line → List Line
  | ' ' :: text | '-' :: text => [text]
  | [] => [[]]
  | _ => []

def newText : Line → List Line
  | ' ' :: text | '+' :: text => [text]
  | [] => [[]]
  | _ => []

def isOther : Line → Bool
  | [] => false
  | c :: _ => c != ' ' && c != '+' && c != '-'

/-- The lines before the first header, and each header with the lines up to the next. -/
def cutHunks : List Line → List Line × List (Line × List Line)
  | [] => ([], [])
  | line :: lines =>
    let (lead, hunks) := cutHunks lines
    if startsHunk line then ([], (line, lead) :: hunks) else (line :: lead, hunks)

theorem cutHunks_spec : ∀ lines : List Line, lines = (cutHunks lines).1 ++ (cutHunks lines).2.flatMap (fun h => h.1 :: h.2) ∧
      (∀ line ∈ (cutHunks lines).1, startsHunk line = false) ∧
      ∀ h ∈ (cutHunks lines).2, startsHunk h.1 = true ∧ ∀ line ∈ h.2, startsHunk line = false
  | [] => ⟨rfl, nofun, nofun⟩
  | line :: lines => by
    obtain ⟨heq, hlead, hhunks⟩ := cutHunks_spec lines
    simp only [cutHunks]
    by_cases hline : startsHunk line = true
    · rw [if_pos hline]
      refine ⟨?_, nofun, fun h hh => ?_⟩
      · rw [nil_append, flatMap_cons, cons_append, ← heq]
      · rcases mem_cons.1 hh with rfl | hh
        · exact ⟨hline, hlead⟩
        · exact hhunks h hh
    rw [if_neg hline]
    refine ⟨?_, fun l hl => ?_, hhunks⟩
    · rw [cons_append, ← heq]
    · rcases mem_cons.1 hl with rfl | hl
      · exact Bool.eq_false_iff.2 hline
      · exact hlead l hl

theorem texts_of_isOther {line : Line} (h : isOther line = true) : oldText line = [] ∧ newText line = [] := by
  match line with
  | [] => cases h
  | c :: text =>
    simp only [isOther, Bool.and_eq_true, bne_iff_ne] at h
    simp only [oldText, newText]
    constructor <;> split <;> simp_all

/-! ## Meta rows -/

def DiffRow.metaText : DiffRow → Option Line
  | .pair .. => none
  | .metaRow text => some text

def metaTexts (rows : List DiffRow) : List Line := rows.filterMap DiffRow.metaText

@[simp] theorem metaTexts_append (rows rows' : List DiffRow) : metaTexts (rows ++ rows') = metaTexts rows ++ metaTexts rows' :=
  filterMap_append

theorem metaTexts_map (texts : List Line) : metaTexts (texts.map DiffRow.metaRow) = texts := by
  rw [metaTexts, filterMap_map]
  exact filterMap_some

theorem metaTexts_flushFrom (removed added : List DiffEntry) : ∀ (count i : Nat) (metas : List (Nat × Line)),
    metaTexts (flushFrom removed added count i metas) = metas.map (·.2)
  | 0, i, metas => by
    rw [flushFrom, ← metaTexts_map (metas.map (·.2)), map_map]
    rfl
  | count + 1, i, metas => by
    have hmap : ∀ ms : List (Nat × Line), metaTexts (ms.map fun m => DiffRow.metaRow m.2) = ms.map (·.2) := fun ms => by
      rw [← metaTexts_map (ms.map (·.2)), map_map]
      rfl
    rw [flushFrom, metaTexts, filterMap_cons]
    change metaTexts (_ ++ _) = _
    rw [metaTexts_append, hmap, metaTexts_flushFrom, ← map_append, takeWhile_append_dropWhile]

namespace ParseState

/-- The meta lines of the rows and of the run that waits. -/
def notes (s : ParseState) : List Line := metaTexts s.rows ++ s.pendingMetas.map (·.2)

@[simp] theorem flush_pendingMetas (s : ParseState) : s.flush.pendingMetas = [] := rfl

theorem notes_flush (s : ParseState) : s.flush.notes.Perm s.notes := by
  unfold notes flush
  simp only [metaTexts_append, metaTexts_flushFrom, map_nil, append_nil]
  exact ((perm_insertionSort _ _).map _).append_left _

end ParseState

/-! ## Where a meta row stands -/

/-- A row that satisfies `holds` with the meta row among those directly behind it. -/
def Follows (rows : List DiffRow) (holds : DiffRow → Prop) (note : Line) : Prop :=
  ∃ before row between after, rows = before ++ row :: (between ++ .metaRow note :: after) ∧ holds row ∧
    ∀ r ∈ between, ∃ text, r = .metaRow text

variable {note : Line}

theorem Follows.append {rows : List DiffRow} {holds : DiffRow → Prop}
    (h : Follows rows holds note) (more : List DiffRow) : Follows (rows ++ more) holds note := by
  obtain ⟨before, row, between, after, rfl, hrow, hb⟩ := h
  exact ⟨before, row, between, after ++ more, by simp, hrow, hb⟩

theorem Follows.prepend {rows : List DiffRow} {holds : DiffRow → Prop}
    (h : Follows rows holds note) (more : List DiffRow) : Follows (more ++ rows) holds note := by
  obtain ⟨before, row, between, after, rfl, hrow, hb⟩ := h
  exact ⟨more ++ before, row, between, after, by simp, hrow, hb⟩

theorem takeWhile_of_sorted {k : Nat} : ∀ {metas : List (Nat × Line)}, metas.Pairwise (fun m n => m.1 ≤ n.1) →
    (∀ m ∈ metas, k ≤ m.1) → (∀ m ∈ metas, m.1 = k → m ∈ metas.takeWhile (fun m => m.1 == k)) ∧
      ∀ m ∈ metas.dropWhile (fun m => m.1 == k), k + 1 ≤ m.1
  | [], _, _ => ⟨nofun, nofun⟩
  | m :: metas, hsort, hge => by
    obtain ⟨hm, hsort⟩ := pairwise_cons.1 hsort
    by_cases hk : m.1 = k
    · obtain ⟨htake, hdrop⟩ := takeWhile_of_sorted hsort fun n hn => hge n (mem_cons_of_mem m hn)
      rw [takeWhile_cons_of_pos (by simpa using hk), dropWhile_cons_of_pos (by simpa using hk)]
      refine ⟨fun n hn hnk => ?_, hdrop⟩
      rcases mem_cons.1 hn with rfl | hn
      · exact mem_cons_self
      · exact mem_cons_of_mem m (htake n hn hnk)
    have hlt : k + 1 ≤ m.1 := Nat.lt_of_le_of_ne (hge m mem_cons_self) (Ne.symm hk)
    rw [takeWhile_cons_of_neg (by simpa using hk), dropWhile_cons_of_neg (by simpa using hk)]
    have hall : ∀ n ∈ m :: metas, k + 1 ≤ n.1 := by
      intro n hn
      rcases mem_cons.1 hn with rfl | hn
      · exact hlt
      · exact Nat.le_trans hlt (hm n hn)
    refine ⟨fun n hn hnk => ?_, hall⟩
    have := hall n hn
    omega

theorem flushFrom_follows (removed added : List DiffEntry) {j : Nat} : ∀ (count i : Nat)
    {metas : List (Nat × Line)}, metas.Pairwise (fun m n => m.1 ≤ n.1) → (∀ m ∈ metas, i + 1 ≤ m.1) →
    (j + 1, note) ∈ metas → i ≤ j → j < i + count →
    Follows (flushFrom removed added count i metas) (fun row => ∃ kind, row = .pair kind removed[j]? added[j]?) note
  | 0, i, metas, _, _, _, hij, hlt => absurd hlt (by omega)
  | count + 1, i, metas, hsort, hge, hmem, hij, hlt => by
    obtain ⟨htake, hdrop⟩ := takeWhile_of_sorted hsort hge
    rw [flushFrom]
    by_cases hj : j = i
    · subst hj
      obtain ⟨ms, ms', hms⟩ := append_of_mem (htake _ hmem rfl)
      refine ⟨[], .pair (if removed[j]?.isSome then .removed else .added) removed[j]? added[j]?,
        ms.map (fun m => .metaRow m.2), ms'.map (fun m => .metaRow m.2) ++
          flushFrom removed added count (j + 1) (metas.dropWhile fun m => m.1 == j + 1), ?_, ⟨_, rfl⟩, ?_⟩
      · rw [hms]
        simp
      · intro r hr
        obtain ⟨m, -, rfl⟩ := mem_map.1 hr
        exact ⟨m.2, rfl⟩
    have hmem' : (j + 1, note) ∈ metas.dropWhile (fun m => m.1 == i + 1) := by
      have happ : (j + 1, note) ∈ metas.takeWhile (fun m => m.1 == i + 1) ++ metas.dropWhile (fun m => m.1 == i + 1) := by
        rw [takeWhile_append_dropWhile]
        exact hmem
      rcases mem_append.1 happ with h | h
      · have := mem_takeWhile_imp h
        simp only [beq_iff_eq] at this
        omega
      · exact h
    have hrest := flushFrom_follows removed added count (i + 1) (hsort.sublist (dropWhile_sublist _)) hdrop hmem'
      (by omega) (by omega)
    rw [← singleton_append, ← append_assoc]
    exact hrest.prepend _

namespace ParseState

/-- The entries of a side that wait, and the entry of a row on that side; `true` is the old side. -/
def waiting (s : ParseState) (old : Bool) : List DiffEntry := if old then s.removed else s.added

end ParseState

def DiffRow.side (row : DiffRow) (old : Bool) : Option DiffEntry := if old then row.old else row.new

namespace ParseState

structure Counted (s : ParseState) : Prop where
  waiting : ∀ m ∈ s.pendingMetas, 1 ≤ m.1
  run : s.removed ≠ [] ∨ s.added ≠ [] → 1 ≤ s.lastRunLen

theorem Counted.flush (s : ParseState) : s.flush.Counted :=
  ⟨nofun, fun h => absurd h (by simp)⟩

variable {s : ParseState}

def Awaits (s : ParseState) (old : Bool) (e : DiffEntry) (note : Line) : Prop :=
  ∃ i, (i + 1, note) ∈ s.pendingMetas ∧ (s.waiting old)[i]? = some e

variable {old : Bool} {e : DiffEntry}

theorem Awaits.flush (hc : s.Counted) {note : Line} (h : s.Awaits old e note) :
    Follows s.flush.rows (fun row => row.side old = some e) note := by
  obtain ⟨i, hmem, hentry⟩ := h
  have hlt : i < max s.removed.length s.added.length := by
    have hi := (List.getElem?_eq_some_iff.1 hentry).1
    cases old with
    | true => exact Nat.lt_of_lt_of_le hi (Nat.le_max_left _ _)
    | false => exact Nat.lt_of_lt_of_le hi (Nat.le_max_right _ _)
  have hfollows := flushFrom_follows s.removed s.added (max s.removed.length s.added.length) 0
    (pairwise_insertionSort (fun m n : Nat × Line => m.1 ≤ n.1) s.pendingMetas)
    (fun m hm => hc.waiting m ((mem_insertionSort _).1 hm)) ((mem_insertionSort _).2 hmem) (Nat.zero_le i)
    (by omega)
  obtain ⟨before, row, between, after, heq, ⟨kind, rfl⟩, hb⟩ := hfollows.prepend s.rows
  refine ⟨before, _, between, after, heq, ?_, hb⟩
  cases old with
  | true => exact hentry
  | false => exact hentry

/-- The meta line stands behind the row of an entry or waits for it. -/
def Attached (s : ParseState) (old : Bool) (e : DiffEntry) (note : Line) : Prop :=
  s.Awaits old e note ∨ Follows s.rows (fun row => row.side old = some e) note

theorem Attached.flush (hc : s.Counted) {note : Line} (h : s.Attached old e note) :
    Follows s.flush.rows (fun row => row.side old = some e) note := by
  rcases h with h | h
  · exact h.flush hc
  · exact h.append _

/-! ## One line after the other -/

/-- Lines were taken in: those of both files with the numbers the state had for them, the others as meta lines, and what was
attached to an entry stays so. -/
structure Advanced (s s' : ParseState) (old new other : List Line) : Prop where
  inHunk : s'.inHunk = s.inHunk
  olds : s'.olds = s.olds ++ numbered s.oldLine old
  news : s'.news = s.news ++ numbered s.newLine new
  oldLine : s'.oldLine = s.oldLine + old.length
  newLine : s'.newLine = s.newLine + new.length
  notes : s'.notes.Perm (s.notes ++ other)
  counted : s.Counted → s'.Counted
  attached : s.Counted → ∀ old e note, s.Attached old e note → s'.Attached old e note

theorem Advanced.trans {s' s'' : ParseState} {old new other old' new' other' : List Line} (h : s.Advanced s' old new other)
    (h' : s'.Advanced s'' old' new' other') : s.Advanced s'' (old ++ old') (new ++ new') (other ++ other') where
  inHunk := h'.inHunk.trans h.inHunk
  olds := by rw [h'.olds, h.olds, h.oldLine, numbered_append, append_assoc]
  news := by rw [h'.news, h.news, h.newLine, numbered_append, append_assoc]
  oldLine := by rw [h'.oldLine, h.oldLine, length_append, Nat.add_assoc]
  newLine := by rw [h'.newLine, h.newLine, length_append, Nat.add_assoc]
  notes := by
    rw [← append_assoc]
    exact h'.notes.trans (h.notes.append_right _)
  counted := fun hc => h'.counted (h.counted hc)
  attached := fun hc _ _ _ ha => h'.attached (h.counted hc) _ _ _ (h.attached hc _ _ _ ha)

theorem Advanced.refl (s : ParseState) : s.Advanced s [] [] [] :=
  ⟨rfl, (append_nil _).symm, (append_nil _).symm, rfl, rfl, by rw [append_nil], fun h => h, fun _ _ _ _ h => h⟩

theorem advanced_flush (s : ParseState) : s.Advanced s.flush [] [] [] where
  inHunk := rfl
  olds := by rw [olds, oldSide_flush]; rfl
  news := by rw [news, newSide_flush]; rfl
  oldLine := rfl
  newLine := rfl
  notes := by
    rw [append_nil]
    exact s.notes_flush
  counted := fun _ => Counted.flush s
  attached := fun hc _ _ _ h => .inr (h.flush hc)

theorem advanced_pushRow (s : ParseState) {row : DiffRow} {old new other : List Line}
    (ho : oldSide [row] = numbered s.oldLine old) (hn : newSide [row] = numbered s.newLine new) (hm : metaTexts [row] = other) :
    s.Advanced { s.flush with
      rows := s.flush.rows ++ [row], oldLine := s.oldLine + old.length, newLine := s.newLine + new.length } old new other where
  inHunk := rfl
  olds := by rw [olds, oldSide_append, oldSide_flush, ho]; exact append_nil _
  news := by rw [news, newSide_append, newSide_flush, hn]; exact append_nil _
  oldLine := rfl
  newLine := rfl
  notes := by
    have hflush := s.notes_flush.append_right other
    simp only [notes, metaTexts_append, hm, flush_pendingMetas, map_nil, append_nil] at hflush ⊢
    exact hflush
  counted := fun _ => ⟨(Counted.flush s).waiting, (Counted.flush s).run⟩
  attached := fun hc _ _ _ h => .inr ((h.flush hc).append _)

theorem advanced_pushContext (s : ParseState) (text : Line) : s.Advanced (s.pushContext text) [text] [text] [] :=
  @advanced_pushRow s (.pair .context (some ⟨text, s.oldLine⟩) (some ⟨text, s.newLine⟩)) [text] [text] [] rfl rfl rfl

theorem advanced_pushAdded (s : ParseState) (text : Line) : s.Advanced (s.pushAdded text) [] [text] [] where
  inHunk := rfl
  olds := (append_nil _).symm
  news := (append_assoc (newSide s.rows) s.added _).symm
  oldLine := rfl
  newLine := rfl
  notes := by rw [append_nil]; rfl
  counted := fun h => ⟨h.waiting, fun _ => Nat.le_add_left 1 _⟩
  attached := fun _ old _ _ h => h.imp_left fun ⟨i, hmem, hentry⟩ => ⟨i, hmem, by
    cases old with
    | true => exact hentry
    | false => exact (List.getElem?_append_left (List.getElem?_eq_some_iff.1 hentry).1).trans hentry⟩

theorem advanced_pushRemoved (s : ParseState) (text : Line) : s.Advanced (s.pushRemoved text) [text] [] [] := by
  have htake : ∀ t : ParseState, t.Advanced { t with
      removed := t.removed ++ [⟨text, t.oldLine⟩], oldLine := t.oldLine + 1, lastRunLen := t.removed.length + 1 } [text] [] [] :=
    fun t => ⟨rfl, (append_assoc (oldSide t.rows) t.removed _).symm, (append_nil _).symm, rfl, rfl, by rw [append_nil]; rfl,
      fun h => ⟨h.waiting, fun _ => Nat.le_add_left 1 _⟩, fun _ old _ _ h => h.imp_left fun ⟨i, hmem, hentry⟩ => ⟨i, hmem, by
        cases old with
        | true => exact (List.getElem?_append_left (List.getElem?_eq_some_iff.1 hentry).1).trans hentry
        | false => exact hentry⟩⟩
  unfold pushRemoved
  split
  · exact htake s
  · exact s.advanced_flush.trans (htake s.flush)

theorem advanced_pushMeta (s : ParseState) (line : Line) : s.Advanced (s.pushMeta line) [] [] [line] := by
  unfold pushMeta
  split
  · next hrun =>
    simp only [Bool.and_eq_true, Bool.or_eq_true, Bool.not_eq_true', isEmpty_eq_false_iff] at hrun
    refine ⟨rfl, (append_nil _).symm, (append_nil _).symm, rfl, rfl, ?_, fun h => ⟨fun m hm => ?_, h.run⟩, fun _ _ _ _ h => ?_⟩
    · simp only [notes, map_append, map_cons, map_nil, append_assoc]
      exact List.Perm.refl _
    · rcases mem_append.1 hm with hm | hm
      · exact h.waiting m hm
      · obtain rfl := mem_singleton.1 hm
        exact h.run hrun.2
    · exact h.imp_left fun ⟨i, hmem, hentry⟩ => ⟨i, mem_append_left _ hmem, hentry⟩
  · exact @advanced_pushRow s (.metaRow line) [] [] [line] rfl rfl rfl

/-- What a line inside a hunk does. -/
inductive Takes (s : ParseState) : Line → ParseState → Prop where
  | context (text : Line) : Takes s (' ' :: text) (s.pushContext text)
  | blank : Takes s [] (s.pushContext [])
  | added (text : Line) : Takes s ('+' :: text) (s.pushAdded text)
  | removed (text : Line) : Takes s ('-' :: text) (s.pushRemoved text)
  | other {line : Line} (h : isOther line = true) : Takes s line (s.pushMeta line)

variable {line : Line}

theorem takes_parseLine (hin : s.inHunk = true) (h : startsHunk line = false) : s.Takes line (s.parseLine line) := by
  match line with
  | [] =>
    rw [show s.parseLine [] = s.pushContext [] by simp [parseLine, startsHunk, hin]]
    exact .blank
  | c :: text =>
    by_cases hspace : c = ' '
    · rw [hspace, show s.parseLine (' ' :: text) = s.pushContext text by simp [parseLine, startsHunk, hin]]
      exact .context text
    by_cases hplus : c = '+'
    · rw [hplus, show s.parseLine ('+' :: text) = s.pushAdded text by simp [parseLine, startsHunk, hin]]
      exact .added text
    by_cases hminus : c = '-'
    · rw [hminus, show s.parseLine ('-' :: text) = s.pushRemoved text by simp [parseLine, startsHunk, hin]]
      exact .removed text
    rw [show s.parseLine (c :: text) = s.pushMeta (c :: text) by simp [parseLine, h, hin, hspace, hplus, hminus]]
    exact .other (by simp [isOther, hspace, hplus, hminus])

theorem parseLine_other (hin : s.inHunk = true) (h : startsHunk line = false) (ho : isOther line = true) :
    s.parseLine line = s.pushMeta line := by
  have htakes := takes_parseLine hin h
  generalize s.parseLine line = t at htakes ⊢
  cases htakes with
  | other => rfl
  | _ => cases ho

theorem advanced_parseLine (hin : s.inHunk = true) (h : startsHunk line = false) :
    s.Advanced (s.parseLine line) (oldText line) (newText line) ([line].filter isOther) := by
  have htakes := takes_parseLine hin h
  generalize s.parseLine line = t at htakes ⊢
  cases htakes with
  | context text => exact advanced_pushContext s text
  | blank => exact advanced_pushContext s []
  | added text => exact advanced_pushAdded s text
  | removed text => exact advanced_pushRemoved s text
  | other ho =>
    rw [(texts_of_isOther ho).1, (texts_of_isOther ho).2, filter_cons_of_pos ho]
    exact advanced_pushMeta s line

theorem advanced_body : ∀ {lines : List Line}, (∀ line ∈ lines, startsHunk line = false) → ∀ {s : ParseState}, s.inHunk = true →
    s.Advanced (lines.foldl ParseState.parseLine s) (lines.flatMap oldText) (lines.flatMap newText) (lines.filter isOther)
  | [], _, s, _ => .refl s
  | line :: lines, h, s, hin => by
    have hline := advanced_parseLine hin (h line mem_cons_self)
    have hrest := advanced_body (fun l hl => h l (mem_cons_of_mem line hl)) (hline.inHunk.trans hin)
    rw [flatMap_cons, flatMap_cons, ← singleton_append, filter_append]
    exact hline.trans hrest

theorem pushMeta_awaits (hin : s.inHunk = true) {es : List DiffEntry}
    (hes : s.waiting old = es ++ [e]) (hlen : s.lastRunLen = es.length + 1) (note : Line) :
    (s.pushMeta note).Attached old e note := by
  have hrun : (s.inHunk && (!s.removed.isEmpty || !s.added.isEmpty)) = true := by
    rw [hin]
    cases old with
    | true => simp [show s.removed = es ++ [e] from hes]
    | false => simp [show s.added = es ++ [e] from hes]
  unfold pushMeta
  rw [if_pos hrun]
  refine .inl ⟨es.length, ?_, ?_⟩
  · rw [← hlen]
    exact mem_append_right _ (mem_singleton_self _)
  · change (s.waiting old)[es.length]? = some e
    rw [hes, List.getElem?_concat_length]

theorem pushRemoved_note (hin : s.inHunk = true) (text note : Line) :
    ((s.pushRemoved text).pushMeta note).Attached true ⟨text, s.oldLine⟩ note := by
  have hlast : ∃ es, (s.pushRemoved text).waiting true = es ++ [⟨text, s.oldLine⟩] ∧
      (s.pushRemoved text).lastRunLen = es.length + 1 := by
    unfold pushRemoved
    by_cases ha : s.added.isEmpty = true
    · simp only [ha, if_true]
      exact ⟨s.removed, rfl, rfl⟩
    · simp only [ha, if_false, Bool.false_eq_true]
      exact ⟨[], rfl, rfl⟩
  obtain ⟨es, hes, hlen⟩ := hlast
  exact pushMeta_awaits ((advanced_pushRemoved s text).inHunk.trans hin) hes hlen note

theorem pushAdded_note (hin : s.inHunk = true) (text note : Line) :
    ((s.pushAdded text).pushMeta note).Attached false ⟨text, s.newLine⟩ note := by
  have hes : (s.pushAdded text).waiting false = s.added ++ [⟨text, s.newLine⟩] := rfl
  exact pushMeta_awaits (s := s.pushAdded text) hin hes rfl note

def inside (oldLine newLine lastRunLen : Nat) : ParseState := ⟨[], true, oldLine, newLine, [], [], lastRunLen, []⟩

theorem openHunk_eq (s : ParseState) (line : Line) : s.openHunk line =
    (inside (hunkStarts line).1 (hunkStarts line).2 s.lastRunLen).under (s.flush.rows ++ [.metaRow line]) := by
  simp [openHunk, inside, under, flush]

end ParseState

/-! ## The rows of a diff -/

/-- What the rows of a hunk's body hold of its lines: the lines of both sides with consecutive numbers from those of the
header, every other line once, and one that directly follows a removed or added line behind the row that holds it. -/
structure HunkRows (header : Line) (body : List Line) (rows : List DiffRow) : Prop where
  olds : oldSide rows = numbered (hunkStarts header).1 (body.flatMap oldText)
  news : newSide rows = numbered (hunkStarts header).2 (body.flatMap newText)
  others : (metaTexts rows).Perm (body.filter isOther)
  removed : ∀ before text note after, body = before ++ ('-' :: text) :: note :: after → isOther note = true →
    Follows rows (fun row => row.old = some ⟨text, (hunkStarts header).1 + (before.flatMap oldText).length⟩) note
  added : ∀ before text note after, body = before ++ ('+' :: text) :: note :: after → isOther note = true →
    Follows rows (fun row => row.new = some ⟨text, (hunkStarts header).2 + (before.flatMap newText).length⟩) note

open ParseState in
theorem follows_of_body {s : ParseState} (hin : s.inHunk = true) (hc : s.Counted)
    {lines : List Line} (hlines : ∀ line ∈ lines, startsHunk line = false)
    {before after : List Line} {x : Line} (hsplit : lines = before ++ x :: note :: after)
    (hnote : isOther note = true) {old : Bool} {e : ParseState → DiffEntry}
    (hx : ∀ s : ParseState, s.inHunk = true → ((s.parseLine x).pushMeta note).Attached old (e s) note) :
    ∃ s' : ParseState, s.Advanced s' (before.flatMap oldText) (before.flatMap newText) (before.filter isOther) ∧
      Follows (lines.foldl parseLine s).flush.rows (fun row => row.side old = some (e s')) note := by
  subst hsplit
  simp only [forall_mem_append, forall_mem_cons] at hlines
  obtain ⟨hbefore, hline, hn, hafter⟩ := hlines
  have hadv := advanced_body hbefore hin
  have hin' := hadv.inHunk.trans hin
  have hx' := advanced_parseLine hin' hline
  have hinx := hx'.inHunk.trans hin'
  have hmeta := advanced_pushMeta (parseLine (before.foldl parseLine s) x) note
  have hrest := advanced_body hafter (hmeta.inHunk.trans hinx)
  have hcounted := hmeta.counted (hx'.counted (hadv.counted hc))
  refine ⟨_, hadv, ?_⟩
  rw [foldl_append, foldl_cons, foldl_cons, parseLine_other hinx hn hnote]
  exact (hrest.attached hcounted _ _ _ (hx _ hin')).flush (hrest.counted hcounted)

open ParseState in
theorem hunkRows_body (header : Line) {body : List Line} (hbody : ∀ line ∈ body, startsHunk line = false) (runLen : Nat) :
    HunkRows header body (body.foldl parseLine (inside (hunkStarts header).1 (hunkStarts header).2 runLen)).flush.rows := by
  have hcounted : (inside (hunkStarts header).1 (hunkStarts header).2 runLen).Counted := ⟨nofun, by simp [inside]⟩
  have hadv := advanced_body hbody (s := inside (hunkStarts header).1 (hunkStarts header).2 runLen) rfl
  refine ⟨?_, ?_, ?_, ?_, ?_⟩
  · rw [oldSide_flush, hadv.olds]
    rfl
  · rw [newSide_flush, hadv.news]
    rfl
  · have hflush := notes_flush (body.foldl parseLine (inside (hunkStarts header).1 (hunkStarts header).2 runLen))
    rw [notes, flush_pendingMetas, map_nil, append_nil] at hflush
    exact hflush.trans hadv.notes
  · intro before text note after hsplit hnote
    obtain ⟨t, hadv', hfollows⟩ := follows_of_body rfl hcounted hbody hsplit hnote (e := fun t => ⟨text, t.oldLine⟩)
      (fun t ht => by
        rw [show t.parseLine ('-' :: text) = t.pushRemoved text by simp [parseLine, startsHunk, ht]]
        exact pushRemoved_note ht text note)
    rw [hadv'.oldLine] at hfollows
    exact hfollows
  intro before text note after hsplit hnote
  obtain ⟨t, hadv', hfollows⟩ := follows_of_body rfl hcounted hbody hsplit hnote (e := fun t => ⟨text, t.newLine⟩)
    (fun t ht => by
      rw [show t.parseLine ('+' :: text) = t.pushAdded text by simp [parseLine, startsHunk, ht]]
      exact pushAdded_note ht text note)
  rw [hadv'.newLine] at hfollows
  exact hfollows

def hunkBlock (hunk : Line × List Line) (rows : List DiffRow) : List DiffRow := .metaRow hunk.1 :: rows

open ParseState in
theorem foldl_cut : ∀ {hunks : List (Line × List Line)},
    (∀ h ∈ hunks, startsHunk h.1 = true ∧ ∀ line ∈ h.2, startsHunk line = false) → ∀ s : ParseState,
    ∃ bodies, List.Forall₂ (fun h rows => HunkRows h.1 h.2 rows) hunks bodies ∧
      ((hunks.flatMap fun h => h.1 :: h.2).foldl parseLine s).flush.rows =
        s.flush.rows ++ (List.zipWith hunkBlock hunks bodies).flatten
  | [], _, s => ⟨[], .nil, (append_nil _).symm⟩
  | h :: hunks, hh, s => by
    obtain ⟨hheader, hbody⟩ := hh h mem_cons_self
    have hopen : s.parseLine h.1 = (inside (hunkStarts h.1).1 (hunkStarts h.1).2 s.lastRunLen).under
        (s.flush.rows ++ [.metaRow h.1]) := by
      unfold ParseState.parseLine
      rw [if_pos hheader, openHunk_eq]
    obtain ⟨bodies, hbodies, hrows⟩ := foldl_cut (fun g hg => hh g (mem_cons_of_mem h hg))
      (h.2.foldl parseLine (s.parseLine h.1))
    refine ⟨_ :: bodies, .cons (hunkRows_body h.1 hbody s.lastRunLen) hbodies, ?_⟩
    rw [flatMap_cons, foldl_append, foldl_cons, hrows, hopen, foldl_under, flush_under]
    simp [under, hunkBlock]

theorem foldl_lead : ∀ {lead : List Line}, (∀ line ∈ lead, startsHunk line = false) → ∀ rows : List DiffRow,
    lead.foldl ParseState.parseLine ⟨rows, false, 1, 1, [], [], 0, []⟩ = ⟨rows ++ lead.map .metaRow, false, 1, 1, [], [], 0, []⟩
  | [], _, rows => by rw [map_nil, append_nil]; rfl
  | line :: lead, h, rows => by
    have hstep : ParseState.parseLine ⟨rows, false, 1, 1, [], [], 0, []⟩ line =
        ⟨rows ++ [.metaRow line], false, 1, 1, [], [], 0, []⟩ := by
      unfold ParseState.parseLine
      rw [h line mem_cons_self, if_neg Bool.false_ne_true]
      simp [ParseState.pushMeta, ParseState.flush, flushFrom]
    rw [foldl_cons, hstep, foldl_lead fun l hl => h l (mem_cons_of_mem line hl)]
    simp

/-- **The parser loses and invents nothing**: each hunk's rows hold on each side exactly the body's lines of that side, numbered
from the header's start, and every other line once, verbatim; one that directly follows a removed or added line stands behind
the row that holds it. -/
theorem parse_loses_nothing (text : List Char) (h : text ≠ ['\n']) :
    ∃ bodies, List.Forall₂ (fun hunk rows => HunkRows hunk.1 hunk.2 rows) (cutHunks (fileLines text)).2 bodies ∧
      parse text = (cutHunks (fileLines text)).1.map .metaRow ++
        (List.zipWith hunkBlock (cutHunks (fileLines text)).2 bodies).flatten := by
  obtain ⟨heq, hlead, hhunks⟩ := cutHunks_spec (fileLines text)
  obtain ⟨bodies, hbodies, hrows⟩ := foldl_cut hhunks
    ⟨(cutHunks (fileLines text)).1.map .metaRow, false, 1, 1, [], [], 0, []⟩
  refine ⟨bodies, hbodies, ?_⟩
  have hlines : splitLines text = fileLines text := by rw [splitLines_eq, if_neg h]
  have hfold := congrArg (List.foldl ParseState.parseLine ⟨[], false, 1, 1, [], [], 0, []⟩) heq
  rw [foldl_append, foldl_lead hlead, nil_append] at hfold
  rw [parse, hlines, hfold, hrows]
  simp [ParseState.flush, flushFrom]

/-- A removed line without a newline at its end, replaced by one with it. -/
theorem parse_no_newline :
    let text := "@@ -1 +1 @@\n-a\n\\ No newline at end of file\n+b\n".toList
    text ≠ ['\n'] ∧ ∃ bodies,
      List.Forall₂ (fun hunk rows => HunkRows hunk.1 hunk.2 rows) (cutHunks (fileLines text)).2 bodies ∧
        parse text = (cutHunks (fileLines text)).1.map .metaRow ++
          (List.zipWith hunkBlock (cutHunks (fileLines text)).2 bodies).flatten := by
  have hne : "@@ -1 +1 @@\n-a\n\\ No newline at end of file\n+b\n".toList ≠ ['\n'] := by decide
  exact ⟨hne, parse_loses_nothing _ hne⟩

/-- **A text of one line break has one line, which is empty, and no rows.** -/
theorem parse_line_break : fileLines ['\n'] = [[]] ∧ parse ['\n'] = [] :=
  ⟨by decide, by decide⟩

/-! ## Well-formed diffs -/

theorem BodyLine.line_spec (b : BodyLine) :
    startsHunk b.line = false ∧ oldText b.line = b.old ∧ newText b.line = b.new := by
  cases b with
  | note n =>
    obtain ⟨text, hvalid⟩ := n
    cases text with
    | nil => cases hvalid
    | cons c text =>
      simp only [isNote, Bool.and_eq_true, Bool.not_eq_true'] at hvalid
      have hother : isOther (c :: text) = true := by
        simp only [isOther, Bool.and_eq_true]
        exact hvalid.1
      exact ⟨hvalid.2, texts_of_isOther hother⟩
  | _ => exact ⟨rfl, rfl, rfl⟩

structure BodyRows (h : Hunk) (rows : List DiffRow) : Prop where
  olds : oldSide rows = numbered h.oldStart h.olds
  news : newSide rows = numbered h.newStart h.news
  quiet : ∀ text, .metaRow text ∈ rows → startsHunk text = false

def blockRows (block : Hunk × List DiffRow) : List DiffRow := .metaRow block.1.header :: block.2

/-- The rows of a diff: meta rows, then each hunk with the rows of its body. -/
structure Parsed (diff : List Char) (hunks : List Hunk) (lead : List DiffRow) (blocks : List (Hunk × List DiffRow)) :
    Prop where
  rows : parse diff = lead ++ blocks.flatMap blockRows
  hunks : blocks.map (·.1) = hunks
  bodies : ∀ b ∈ blocks, BodyRows b.1 b.2
  leadOld : oldSide lead = []
  leadNew : newSide lead = []
  quiet : ∀ text, .metaRow text ∈ lead → startsHunk text = false

theorem UnifiedDiff.widgetLines {diff : List Char} {old new : TextFile} {leading : List Line} {hunks : List Hunk}
    (hd : UnifiedDiff diff old new leading hunks) : ∃ leading', splitLines diff =
      leading' ++ hunks.flatMap Hunk.lines ∧ ∀ line ∈ leading', startsHunk line = false := by
  rw [splitLines_eq]
  by_cases hnl : diff = ['\n']
  · rw [if_pos hnl]
    have htext := hd.text
    rw [hnl] at htext
    cases hunks with
    | nil => exact ⟨[], rfl, nofun⟩
    | cons h hunks =>
      have hmem : h.header ∈ fileLines ['\n'] := by
        rw [htext]
        simp [Hunk.lines]
      cases mem_singleton.1 (hmem : h.header ∈ [[]])
  · rw [if_neg hnl]
    exact ⟨leading, hd.text, hd.leading⟩

theorem HunkRows.bodyRows {h : Hunk} {rows : List DiffRow} (hr : HunkRows h.header (h.body.map BodyLine.line) rows)
    (hf : h.Fits) : BodyRows h rows := by
  obtain ⟨ho, hn, hothers, -, -⟩ := hr
  rw [hunkStarts_header hf, flatMap_map] at ho hn
  rw [flatMap_congr fun b _ => b.line_spec.2.1] at ho
  rw [flatMap_congr fun b _ => b.line_spec.2.2] at hn
  refine ⟨ho, hn, fun text hmem => ?_⟩
  have htext : text ∈ metaTexts rows := mem_filterMap.2 ⟨_, hmem, rfl⟩
  obtain ⟨b, -, rfl⟩ := mem_map.1 (mem_filter.1 (hothers.mem_iff.1 htext)).1
  exact b.line_spec.1

theorem parse_hunks {diff : List Char} {old new : TextFile} {leading : List Line} {hunks : List Hunk}
    (hd : UnifiedDiff diff old new leading hunks) (hfits : ∀ h ∈ hunks, h.Fits) :
    ∃ lead blocks, Parsed diff hunks lead blocks := by
  obtain ⟨leading', hsplit, hlead⟩ := hd.widgetLines
  have hcut : ∀ h ∈ hunks.map (fun h => (h.header, h.body.map BodyLine.line)),
      startsHunk h.1 = true ∧ ∀ line ∈ h.2, startsHunk line = false := by
    refine forall_mem_map.2 fun h _ => ⟨rfl, forall_mem_map.2 fun b _ => b.line_spec.1⟩
  obtain ⟨bodies, hbodies, hrows⟩ := foldl_cut hcut ⟨leading'.map .metaRow, false, 1, 1, [], [], 0, []⟩
  rw [forall₂_map_left_iff] at hbodies
  have hsides : oldSide (leading'.map .metaRow) = [] ∧ newSide (leading'.map .metaRow) = [] := by
    simp [oldSide, newSide, filterMap_map, Function.comp_def, DiffRow.old, DiffRow.new]
  refine ⟨leading'.map .metaRow, hunks.zip bodies, ?_, map_fst_zip hbodies.length_eq.le, fun b hb => ?_, hsides.1, hsides.2, ?_⟩
  · rw [parse, hsplit, foldl_append, foldl_lead hlead, nil_append]
    rw [flatMap_map] at hrows
    refine hrows.trans ?_
    rw [zipWith_map_left, ← map_uncurry_zip_eq_zipWith, ← flatMap_def]
    simp [ParseState.flush, flushFrom]
    rfl
  · exact (forall₂_zip hbodies hb).bodyRows (hfits _ (of_mem_zip hb).1)
  · intro text hmem
    obtain ⟨line, hline, heq⟩ := mem_map.1 hmem
    cases heq
    exact hlead _ hline

end Ferrowl.Ui.DiffView
