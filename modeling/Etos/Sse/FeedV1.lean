import Etos.Sse.Feed

/-!
# `Sse.FeedV1` — event blobs in the `v1` client

The client of `v1` splits every chunk into lines for itself. A line feed at the beginning of a chunk is then a line of
its own, and ends the event, also where it ends a line that began in the chunk before. **`chunks_invisible_iff`**: what
is read depends on how the bytes are cut exactly if there is such a chunk, and what comes before it can be decoded.

The proof goes byte by byte (`scan`), with a mark on the first byte of each chunk. Without the marks `scan` reads the
uncut bytes.
-/

namespace Etos.Sse.V1

open Encoding Text

/-- `__line_buffered`. -/
def lineBuffered (chunks : List Bytes) : List Bytes :=
  chunks.flatMap fun chunk => if chunk.length = 0 then [] else lines byteBreaks chunk

/-- `__read`. -/
def read (chunks : List Bytes) : Yielded (List Char) := blobs [] (lineBuffered chunks)

/-- Some chunk begins with the line feed of a line that began before it, and the bytes before it are UTF-8. -/
def CutsLine (chunks : List Bytes) : Prop :=
  ∃ pre chunk post, chunks = pre ++ chunk :: post ∧ chunk.head? = some 10 ∧
    (∃ b, pre.flatten.getLast? = some b ∧ b ≠ 10) ∧ (decodeUtf8 pre.flatten).isSome = true

/-! ## Byte by byte -/

/-- Read bytes, those at the beginning of a chunk with a mark. `start` says whether a line begins here. -/
def scan (start : Bool) (feed : Bytes) : List (Bool × UInt8) → Yielded (List Char)
  | [] => ⟨[], none⟩
  | (mark, b) :: s =>
      if b = 10 then
        if start || mark then yieldDecoded feed (scan true [] s)
        else scan true (feed ++ [b]) s
      else scan false (feed ++ [b]) s

/-- The bytes of a chunk, without a mark. -/
def unmarked (chunk : Bytes) : List (Bool × UInt8) := chunk.map (false, ·)

/-- The bytes of a chunk, with a mark on the first. -/
def marked : Bytes → List (Bool × UInt8)
  | [] => []
  | b :: chunk => (true, b) :: unmarked chunk

variable {L : List Bytes} {M : List (Bool × UInt8)} {start mark : Bool} {feed : Bytes} {b : UInt8}
  {s : List (Bool × UInt8)}

theorem scan_other (hb : b ≠ 10) : scan start feed ((mark, b) :: s) = scan false (feed ++ [b]) s := by
  rw [scan, if_neg hb]

theorem scan_inside : scan false feed ((false, 10) :: s) = scan true (feed ++ [10]) s := by
  rw [scan, if_pos rfl, if_neg (by decide)]

theorem scan_empty (h : (start || mark) = true) :
    scan start feed ((mark, 10) :: s) = yieldDecoded feed (scan true [] s) := by
  rw [scan, if_pos rfl, if_pos h]

/-- `blobs` reads lines as `scan` reads bytes, from the beginning of a line, and from within the first line. -/
def ScansAs (L lines : List Bytes) (bytes : List (Bool × UInt8)) : Prop :=
  (∀ feed, blobs feed (lines ++ L) = scan true feed bytes) ∧
    ∀ feed l ls, lines = l :: ls → blobs (feed ++ l) (ls ++ L) = scan false feed bytes

/-- A line that is not empty: it makes no difference where it is read from. -/
theorem ScansAs.line {l : Bytes} {ls : List Bytes} (hl : l ≠ [10])
    (hscan : ∀ start feed, blobs (feed ++ l) (ls ++ L) = scan start feed s) : ScansAs L (l :: ls) s := by
  refine ⟨fun feed => (blobs_line hl _).trans (hscan true feed), ?_⟩
  rintro feed l' ls' h
  cases h
  exact hscan false feed

/-- A line feed: an empty line, or the end of the line that is being read. -/
theorem ScansAs.lineFeed {ls : List Bytes} (hrest : ∀ feed, blobs feed (ls ++ L) = scan true feed s) :
    ScansAs L ([10] :: ls) ((false, 10) :: s) := by
  refine ⟨fun feed => ?_, ?_⟩
  · rw [List.cons_append, blobs_empty, scan_empty rfl, hrest]
  · rintro feed l ls' h
    cases h
    exact (hrest _).trans scan_inside.symm

/-- The lines of a chunk are read byte by byte, from the beginning of a line or from within one. `M` are the bytes that
    follow, read wherever the chunk ends. -/
theorem blobs_lines (hnext : ∀ start feed, blobs feed L = scan start feed M) (chunk : Bytes) :
    ScansAs L (lines byteBreaks chunk) (unmarked chunk ++ M) := by
  induction chunk using lines.induct byteBreaks with
  | case1 => exact ⟨fun feed => hnext true feed, fun feed l ls h => by rw [lines_nil] at h; cases h⟩
  | case2 c =>
      have hlines : lines byteBreaks [c] = [[c]] := by rw [lines]
      rw [hlines]
      by_cases hc : c = 10
      · subst hc
        exact .lineFeed (hnext true)
      · refine .line (by simpa using hc) fun start feed => ?_
        exact (hnext false _).trans (scan_other hc).symm
  | case3 c d s hcrlf ih =>
      obtain ⟨rfl, rfl⟩ := hcrlf
      rw [lines_crlf]
      refine .line (by decide) fun start feed => ?_
      show blobs (feed ++ [13, 10]) _ = scan start feed ((false, 13) :: (false, 10) :: (unmarked s ++ M))
      rw [scan_other (by decide), scan_inside, List.append_assoc, List.singleton_append, ih.1]
  | case4 c d s hcrlf hbreak ih =>
      have hhead : c = byteBreaks.cr → (d :: s).head? ≠ some byteBreaks.lf := by
        rintro rfl hd
        cases hd
        exact hcrlf ⟨rfl, rfl⟩
      rw [lines_of_break hbreak hhead]
      by_cases hc : c = 10
      · subst hc
        exact .lineFeed ih.1
      · -- a CR, and what follows is no LF: whether a line begins there makes no difference
        have hd : d ≠ 10 := by
          rintro rfl
          refine hhead ?_ rfl
          have hcases : c = 13 ∨ c = 10 := by simpa [byteBreaks] using hbreak
          exact hcases.resolve_right hc
        refine .line (by simpa using hc) fun start feed => ?_
        show _ = scan start feed ((false, c) :: (unmarked (d :: s) ++ M))
        rw [scan_other hc, ih.1]
        exact (scan_other hd).trans (scan_other hd).symm
  | case5 c d s hcrlf hbreak ih =>
      have hother : byteBreaks.isBreak c = false := Bool.eq_false_iff.mpr hbreak
      have hc : c ≠ 10 := by
        rintro rfl
        cases hother
      obtain ⟨l', ls', hl'⟩ : ∃ l' ls', lines byteBreaks (d :: s) = l' :: ls' :=
        List.exists_cons_of_ne_nil fun hnil => List.cons_ne_nil _ _ (lines_eq_nil.mp hnil)
      rw [lines_of_other hother, hl']
      refine .line (fun h => hc (List.cons.inj h).1) fun start feed => ?_
      show _ = scan start feed ((false, c) :: (unmarked (d :: s) ++ M))
      rw [scan_other hc, ← ih.2 _ l' ls' hl', List.append_assoc, List.singleton_append]

/-- At the beginning of a chunk a line begins. -/
theorem scan_marked (start : Bool) (feed : Bytes) {chunk : Bytes} (h : chunk ≠ []) :
    scan start feed (marked chunk ++ M) = scan true feed (unmarked chunk ++ M) := by
  cases chunk with
  | nil => exact absurd rfl h
  | cons b chunk =>
      show scan start feed ((true, b) :: (unmarked chunk ++ M)) = scan true feed ((false, b) :: (unmarked chunk ++ M))
      by_cases hb : b = 10
      · subst hb
        rw [scan_empty (Bool.or_true start), scan_empty rfl]
      · rw [scan_other hb, scan_other hb]

/-- The lines of chunks are read byte by byte. -/
theorem blobs_lineBuffered (chunks : List Bytes) (start : Bool) (feed : Bytes) :
    blobs feed (lineBuffered chunks) = scan start feed (chunks.flatMap marked) := by
  induction chunks generalizing start feed with
  | nil => rfl
  | cons chunk chunks ih =>
      rw [lineBuffered, List.flatMap_cons, List.flatMap_cons]
      split
      · rename_i hempty
        rw [List.length_eq_zero_iff.mp hempty]
        exact ih start feed
      · rename_i hchunk
        rw [scan_marked start feed (fun h => hchunk (by rw [h]; rfl))]
        exact (blobs_lines ih chunk).1 feed

/-! ## Cuts -/

/-- Does a line begin after these bytes? -/
def startAfter (start : Bool) (s : List (Bool × UInt8)) : Bool :=
  match s.getLast? with
  | some (_, b) => b = 10
  | none => start

theorem startAfter_cons (start mark : Bool) (b : UInt8) (s : List (Bool × UInt8)) :
    startAfter start ((mark, b) :: s) = startAfter (b = 10) s := by
  cases s with
  | nil => rfl
  | cons c s =>
      rw [startAfter, startAfter, List.getLast?_cons_cons, List.getLast?_eq_some_getLast (List.cons_ne_nil c s)]

/-- Bytes that are not UTF-8, up to a line feed, are never decoded. -/
theorem items_scan_broken {x y : Bytes} (hx : (decodeUtf8 x).isSome = false) (start : Bool) (s : List (Bool × UInt8)) :
    (scan start (x ++ 10 :: y) s).items = [] := by
  induction s generalizing start y with
  | nil => rfl
  | cons p s ih =>
      obtain ⟨mark, b⟩ := p
      have hnext : ∀ start, (scan start (x ++ 10 :: y ++ [b]) s).items = [] := by
        intro start
        rw [List.append_assoc, List.cons_append]
        exact ih start
      rw [scan]
      split
      · split
        · have hnone : decodeUtf8 (x ++ 10 :: y) = none := by
            rw [← Option.not_isSome_iff_eq_none, decodeUtf8_append_cons_isSome (by decide), hx]
            exact Bool.false_ne_true
          rw [yieldDecoded, hnone]
        · exact hnext true
      · exact hnext false

/-- The first event begins with what has been fed. -/
theorem prefix_of_items_scan {event : List Char} {events : List (List Char)} (start : Bool) (s : List (Bool × UInt8))
    (h : (scan start feed s).items = event :: events) : feed <+: utf8 event := by
  induction s generalizing start feed with
  | nil => cases h
  | cons p s ih =>
      obtain ⟨mark, b⟩ := p
      rw [scan] at h
      split at h
      · split at h
        · unfold yieldDecoded at h
          split at h
          · rename_i hdecode
            cases h
            exact (decodeUtf8_eq_some.mp hdecode) ▸ List.prefix_rfl
          · cases h
        · exact (List.prefix_append _ _).trans (ih true h)
      · exact (List.prefix_append _ _).trans (ih false h)

/-- The cuts in a list: the first byte, or one of the others. -/
theorem forall_cut_cons {P : Bytes → Prop} {p : Bool × UInt8} :
    (∀ pre post, p :: s = pre ++ (true, 10) :: post → startAfter start pre = false → P (pre.map Prod.snd)) ↔
      (p = (true, 10) → start = false → P []) ∧
        ∀ pre post, s = pre ++ (true, 10) :: post → startAfter (p.2 = 10) pre = false →
          P (p.2 :: pre.map Prod.snd) := by
  constructor
  · intro h
    refine ⟨?_, fun pre post hs hstart => ?_⟩
    · rintro rfl hstart
      exact h [] s rfl hstart
    · refine h (p :: pre) post (by rw [hs]; rfl) ?_
      rw [startAfter_cons]
      exact hstart
  · rintro ⟨hfirst, hrest⟩ pre post heq hstart
    cases pre with
    | nil =>
        rw [List.nil_append, List.cons.injEq] at heq
        exact hfirst heq.1 hstart
    | cons q pre =>
        rw [List.cons_append, List.cons.injEq] at heq
        obtain ⟨rfl, hs⟩ := heq
        rw [startAfter_cons] at hstart
        exact hrest pre post hs hstart

/-- **Marks make a difference** exactly where one is on a line feed within a line, after bytes that are UTF-8. -/
theorem items_scan_iff (s : List (Bool × UInt8)) (start : Bool) (feed : Bytes) :
    (scan start feed s).items = (scan start feed (unmarked (s.map Prod.snd))).items ↔
      ∀ pre post, s = pre ++ (true, 10) :: post → startAfter start pre = false →
        (decodeUtf8 (feed ++ pre.map Prod.snd)).isSome = false := by
  induction s generalizing start feed with
  | nil => simp [unmarked]
  | cons p s ih =>
      obtain ⟨mark, b⟩ := p
      rw [forall_cut_cons (P := fun x => (decodeUtf8 (feed ++ x)).isSome = false)]
      show (scan start feed ((mark, b) :: s)).items =
        (scan start feed ((false, b) :: unmarked (s.map Prod.snd))).items ↔ _
      by_cases hb : b = 10
      · subst hb
        have hsplit : ∀ x, (decodeUtf8 (feed ++ 10 :: x)).isSome =
            ((decodeUtf8 feed).isSome && (decodeUtf8 x).isSome) :=
          fun x => decodeUtf8_append_cons_isSome (by decide)
        cases start with
        | true =>
            rw [scan_empty rfl, scan_empty rfl]
            unfold yieldDecoded
            cases hdecode : decodeUtf8 feed with
            | none =>
                rw [hdecode] at hsplit
                simp [hsplit]
            | some event =>
                rw [hdecode] at hsplit
                have ih := ih true []
                simp only [List.nil_append] at ih
                simp only [Yielded.cons, List.cons.injEq, true_and, hsplit, Option.isSome_some, Bool.true_and]
                rw [ih]
                simp
        | false =>
            cases mark with
            | false =>
                rw [scan_inside, scan_inside, ih, and_iff_right nofun]
                simp only [List.append_assoc, List.singleton_append, decide_true]
            | true =>
                rw [scan_empty rfl, scan_inside]
                unfold yieldDecoded
                cases hdecode : decodeUtf8 feed with
                | none =>
                    rw [hdecode] at hsplit
                    have hnone : (decodeUtf8 feed).isSome = false := by rw [hdecode]; rfl
                    rw [items_scan_broken hnone]
                    simp [hsplit, hdecode]
                | some event =>
                    -- an event here, and at most a longer one there
                    have hfeed := decodeUtf8_eq_some.mp hdecode
                    refine iff_of_false (fun heq => ?_) fun h => ?_
                    · have hlonger : feed ++ [10] <+: utf8 event := prefix_of_items_scan true _ heq.symm
                      have hlength := hlonger.length_le
                      rw [← hfeed, List.length_append] at hlength
                      exact absurd hlength (by simp)
                    · have hnone := h.1 rfl rfl
                      rw [List.append_nil, hdecode] at hnone
                      cases hnone
      · rw [scan_other hb, scan_other hb, ih, and_iff_right fun h => absurd (congrArg Prod.snd h) hb]
        simp only [List.append_assoc, List.singleton_append, decide_eq_false hb]

theorem marked_snd (chunk : Bytes) : (marked chunk).map Prod.snd = chunk := by
  cases chunk with
  | nil => rfl
  | cons b chunk =>
      rw [marked, List.map_cons, unmarked, List.map_map]
      exact congrArg (b :: ·) (List.map_id chunk)

theorem flatMap_marked_snd (chunks : List Bytes) : (chunks.flatMap marked).map Prod.snd = chunks.flatten := by
  induction chunks with
  | nil => rfl
  | cons chunk chunks ih => rw [List.flatMap_cons, List.map_append, ih, marked_snd, List.flatten_cons]

theorem marked_eq {chunk : Bytes} {pre post : List (Bool × UInt8)} {b : UInt8}
    (h : marked chunk = pre ++ (true, b) :: post) : pre = [] ∧ chunk.head? = some b := by
  cases chunk with
  | nil => exact absurd h (by simp [marked])
  | cons c chunk =>
      cases pre with
      | nil =>
          cases h
          exact ⟨rfl, rfl⟩
      | cons p pre =>
          have htail : unmarked chunk = pre ++ (true, b) :: post := (List.cons.inj h).2
          have hmem : (true, b) ∈ unmarked chunk := by
            rw [htail]
            simp
          simp [unmarked] at hmem

/-- The marks are on the first bytes of chunks. -/
theorem flatMap_marked_eq {chunks : List Bytes} {pre post : List (Bool × UInt8)} {b : UInt8}
    (h : chunks.flatMap marked = pre ++ (true, b) :: post) :
    ∃ pre' chunk post', chunks = pre' ++ chunk :: post' ∧ chunk.head? = some b ∧ pre'.flatMap marked = pre := by
  induction chunks generalizing pre with
  | nil => exact absurd h (by simp)
  | cons chunk chunks ih =>
      rw [List.flatMap_cons] at h
      -- the mark is in the later chunks, or in this one
      have hlater : ∀ pre₁, pre = marked chunk ++ pre₁ → chunks.flatMap marked = pre₁ ++ (true, b) :: post →
          ∃ pre' chunk' post', chunk :: chunks = pre' ++ chunk' :: post' ∧ chunk'.head? = some b ∧
            pre'.flatMap marked = pre := by
        rintro pre₁ rfl hrest
        obtain ⟨pre', chunk', post', rfl, hhead, rfl⟩ := ih hrest
        exact ⟨chunk :: pre', chunk', post', rfl, hhead, rfl⟩
      rcases List.append_eq_append_iff.mp h with ⟨pre₁, hpre, hrest⟩ | ⟨x, hchunk, hrest⟩
      · exact hlater pre₁ hpre hrest
      · cases x with
        | nil => exact hlater [] (by rw [List.append_nil] at hchunk ⊢; exact hchunk.symm) hrest.symm
        | cons p x =>
            obtain ⟨rfl, -⟩ := List.cons.inj hrest
            obtain ⟨rfl, hhead⟩ := marked_eq hchunk
            exact ⟨[], chunk, chunks, rfl, hhead, rfl⟩

theorem startAfter_eq_false {s : List (Bool × UInt8)} :
    startAfter true s = false ↔ ∃ b, (s.map Prod.snd).getLast? = some b ∧ b ≠ 10 := by
  unfold startAfter
  rw [List.getLast?_map]
  cases s.getLast? with
  | none => simp
  | some p => simp

/-- **When chunking is invisible to the `v1` client**: unless a chunk begins with a line feed that ends a line of the
    chunk before, after bytes that can be decoded. -/
theorem chunks_invisible_iff (chunks : List Bytes) :
    (read chunks).items = (read [chunks.flatten]).items ↔ ¬ CutsLine chunks := by
  have hcut : read chunks = scan true [] (chunks.flatMap marked) := blobs_lineBuffered chunks true []
  have huncut : read [chunks.flatten] = scan true [] (unmarked ((chunks.flatMap marked).map Prod.snd)) := by
    rw [flatMap_marked_snd]
    by_cases hempty : chunks.flatten = []
    · rw [hempty]
      rfl
    · have hmarked := scan_marked (M := []) true [] hempty
      rw [List.append_nil, List.append_nil] at hmarked
      exact (blobs_lineBuffered [chunks.flatten] true []).trans (by rw [List.flatMap_singleton, hmarked])
  rw [hcut, huncut, items_scan_iff]
  constructor
  · rintro h ⟨pre, chunk, post, rfl, hhead, hlast, hdecode⟩
    obtain ⟨chunk, rfl⟩ : ∃ chunk', chunk = 10 :: chunk' := by
      cases chunk with
      | nil => cases hhead
      | cons b chunk =>
          cases hhead
          exact ⟨chunk, rfl⟩
    have hnone := h (pre.flatMap marked) (unmarked chunk ++ post.flatMap marked) (by simp [marked])
      (startAfter_eq_false.mpr (by rw [flatMap_marked_snd]; exact hlast))
    rw [List.nil_append, flatMap_marked_snd, hdecode] at hnone
    cases hnone
  · intro h pre post heq hstart
    obtain ⟨pre', chunk, post', hchunks, hhead, rfl⟩ := flatMap_marked_eq heq
    rw [startAfter_eq_false, flatMap_marked_snd] at hstart
    rw [List.nil_append, flatMap_marked_snd]
    exact Bool.eq_false_iff.mpr fun hdecode => h ⟨pre', chunk, post', hchunks, hhead, hstart, hdecode⟩

/-- An event whose two line feeds come in a chunk of their own: the first of them ends the event, and the second ends an
    empty one. -/
theorem cut_before_line_feed : ¬ ∀ chunks : List Bytes, (read chunks).items = (read [chunks.flatten]).items := by
  intro h
  have hcut : (read [utf8 "data: x".toList, [10, 10]]).items = ["data: x".toList, []] := by decide +kernel
  have huncut : (read [utf8 "data: x".toList ++ [10, 10]]).items = ["data: x\n".toList] := by decide +kernel
  have heq := h [utf8 "data: x".toList, [10, 10]]
  rw [hcut] at heq
  exact absurd (heq.trans huncut) (by decide)

end Etos.Sse.V1
