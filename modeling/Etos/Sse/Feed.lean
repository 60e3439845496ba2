import Etos.Encoding.Utf8
import Etos.Text.Lines

/-!
# `Sse.Feed` — from received bytes to event blobs

How the Python clients cut what they receive into the texts of events, each up to an empty line. The server's bytes
come in chunks, cut anywhere. The client of `v2alpha` keeps a line back until all of it has arrived: how the bytes are
cut cannot be told from what it reads (**`chunks_invisible`**). The client of `v1` splits every chunk for itself, and a
chunk that begins with a line feed ends an event (`Sse.FeedV1`).
-/

namespace Etos.Sse

open Encoding Text

/-- `bytes.splitlines` breaks lines at CR, LF and CRLF. -/
def byteBreaks : Breaks UInt8 where
  cr := 13
  lf := 10
  isBreak b := b = 13 || b = 10
  cr_ne_lf := by decide
  cr_isBreak := by decide
  lf_isBreak := by decide

/-- The exceptions of reading and parsing. -/
inductive Raised where
  | unicodeDecodeError
  /-- A line that cannot be unpacked into a name and a value. -/
  | valueError
  /-- JSON that is nested too deep, or has a number that is too long: not a `JSONDecodeError`. -/
  | notLoaded
  deriving DecidableEq

/-- What a generator yields, and the exception that ends it. -/
structure Yielded (α : Type) where
  items : List α
  raised : Option Raised := none
  deriving DecidableEq

/-- `yield`, and then the rest. -/
def Yielded.cons {α : Type} (a : α) (y : Yielded α) : Yielded α := { y with items := a :: y.items }

/-- `yield feed.decode("utf-8")`, and then the rest. -/
def yieldDecoded (feed : Bytes) (rest : Yielded (List Char)) : Yielded (List Char) :=
  match decodeUtf8 feed with
  | some event => rest.cons event
  | none => ⟨[], some .unicodeDecodeError⟩

/-- `__read`, of the lines: an event is what comes before an empty line. -/
def blobs (feed : Bytes) : List Bytes → Yielded (List Char)
  | [] => ⟨[], none⟩
  | line :: ls =>
      if line = [10] then yieldDecoded feed (blobs [] ls)
      else blobs (feed ++ line) ls

theorem blobs_line {feed line : Bytes} (h : line ≠ [10]) (ls : List Bytes) :
    blobs feed (line :: ls) = blobs (feed ++ line) ls := by
  rw [blobs, if_neg h]

theorem blobs_empty (feed : Bytes) (ls : List Bytes) :
    blobs feed ([10] :: ls) = yieldDecoded feed (blobs [] ls) := by
  rw [blobs, if_pos rfl]

namespace SSEClient

/-- `__line_buffered`. -/
def lineBuffered (buffer : Bytes) : List Bytes → List Bytes
  | [] => []
  | chunk :: chunks =>
      if chunk.length = 0 then lineBuffered buffer chunks
      else
        let ls := lines byteBreaks (buffer ++ chunk)
        if ls.getLast?.bind List.getLast? = some 10 then ls ++ lineBuffered [] chunks
        -- a CR at the end may be the first half of a CRLF
        else ls.dropLast ++ lineBuffered (ls.getLast?.getD []) chunks

/-- `__read`. -/
def read (chunks : List Bytes) : Yielded (List Char) := blobs [] (lineBuffered [] chunks)

/-- What is kept back is the last line, if it is not complete. -/
theorem lineBuffered_eq (buffer : Bytes) (hbuffer : complete byteBreaks (lines byteBreaks buffer) = [])
    (chunks : List Bytes) :
    lineBuffered buffer chunks = complete byteBreaks (lines byteBreaks (buffer ++ chunks.flatten)) := by
  induction chunks generalizing buffer with
  | nil =>
      rw [List.flatten_nil, List.append_nil]
      exact hbuffer.symm
  | cons chunk chunks ih =>
      unfold lineBuffered
      split
      · rename_i hempty
        rw [List.length_eq_zero_iff.mp hempty, List.flatten_cons, List.nil_append]
        exact ih buffer hbuffer
      · rename_i hchunk
        rw [List.flatten_cons, ← List.append_assoc]
        have hne : lines byteBreaks (buffer ++ chunk) ≠ [] := by
          intro hnil
          have happend := lines_eq_nil.mp hnil
          exact hchunk (by simp [(List.append_eq_nil_iff.mp happend).2])
        obtain ⟨ls, l, hlines⟩ : ∃ ls l, lines byteBreaks (buffer ++ chunk) = ls ++ [l] :=
          ⟨_, _, (List.dropLast_concat_getLast hne).symm⟩
        dsimp only
        rw [hlines]
        simp only [List.getLast?_concat, Option.bind_some, List.dropLast_concat, Option.getD_some]
        split
        · rename_i hlf
          replace hlf : l.getLast? = some byteBreaks.lf := hlf
          have hlast : (buffer ++ chunk).getLast? = some byteBreaks.lf := (getLast?_of_lines hlines).trans hlf
          rw [lines_append_of_lf hlast, hlines, ih [] (by simp), List.nil_append]
          cases hrest : lines byteBreaks chunks.flatten with
          | nil =>
              rw [complete_nil, List.append_nil, complete_concat, if_pos hlf]
          | cons r rs => rw [complete_append (List.cons_ne_nil r rs)]
        · rename_i hlf
          replace hlf : l.getLast? ≠ some byteBreaks.lf := hlf
          have hl := lines_last hlines
          have hopen : complete byteBreaks [l] = [] := by
            have hconcat : complete byteBreaks ([] ++ [l]) =
                [] ++ if l.getLast? = some byteBreaks.lf then [l] else [] :=
              complete_concat
            rw [if_neg hlf] at hconcat
            exact hconcat
          rw [lines_append hlines, complete_append, ih l (by rw [hl, hopen])]
          intro hnil
          have happend := lines_eq_nil.mp hnil
          rw [(List.append_eq_nil_iff.mp happend).1, lines_nil] at hl
          cases hl

/-- The complete lines of the bytes. -/
theorem lineBuffered_flatten (chunks : List Bytes) :
    lineBuffered [] chunks = complete byteBreaks (lines byteBreaks chunks.flatten) :=
  lineBuffered_eq [] (by simp) chunks

/-- **Chunking is invisible**: however the bytes are cut into chunks, the client reads what it reads of the uncut bytes,
    up to the exception if there is one. -/
theorem chunks_invisible (chunks : List Bytes) : read chunks = read [chunks.flatten] := by
  unfold read
  rw [lineBuffered_flatten, lineBuffered_flatten, List.flatten_singleton]

end SSEClient

end Etos.Sse
