import Etos.Cli.Downloader
import Etos.Lists.Dict

/-!
# `Cli.Accounting` — what the reconciler counts

`shared/download_reconciler.py` once more: the numbers that `log_summary` prints at the end. The downloader and its
workers call `record_received`, `record_downloaded` and `record_failed` in any order and with any items, also for one
URL again and again. **`reconciler_accounts`** says that the numbers agree whatever the calls were: `breakdown` divides
up what is `expected`, and what it does not count as downloaded is `missing`, in the order in which it was received.
-/

namespace Etos.Cli

open Etos.Lists

/-! ## The numbers -/

namespace DownloadReconciler

variable (r : DownloadReconciler)

/-- `expected`. -/
def expected : Nat := r.received.length

/-- The counts of a directory with one more item. -/
def counted (item : Downloadable) (counts : Option (Nat × Nat)) : Nat × Nat :=
  let (done, expected) := counts.getD (0, 0)
  (done + if item.url ∈ r.downloaded then 1 else 0, expected + 1)

/-- `breakdown`. -/
def breakdown : List (List Char × (Nat × Nat)) :=
  r.received.foldl (fun counts item => setItem item.path.str (r.counted item (counts.lookup item.path.str)) counts) []

end DownloadReconciler

/-! ## Calls -/

/-- The calls that the reconciler gets. -/
inductive Record where
  | received (item : Downloadable)
  | downloaded (item : Downloadable)
  | failed (item : Downloadable) (reason : Failure)

def DownloadReconciler.record (r : DownloadReconciler) : Record → DownloadReconciler
  | .received item => r.recordReceived item
  | .downloaded item => r.recordDownloaded item
  | .failed item reason => r.recordFailed item reason

/-- The reconciler after all calls. -/
def reconciled (calls : List Record) : DownloadReconciler := calls.foldl DownloadReconciler.record {}

/-- The URLs that were received, as often as they were. -/
def receivedUrls (calls : List Record) : List String :=
  calls.filterMap fun
    | .received item => some item.url
    | _ => none

/-- The URLs that were downloaded. -/
def downloadedUrls (calls : List Record) : List String :=
  calls.filterMap fun
    | .downloaded item => some item.url
    | _ => none

/-- URLs in the order in which they were received first, none of them twice. -/
def InOrderOfReceipt (calls : List Record) (urls : List String) : Prop :=
  urls.Pairwise fun u v => (receivedUrls calls).idxOf u < (receivedUrls calls).idxOf v

/-! ## Steps -/

/-- What the reconciler knows after calls: the URLs that were received and those that were downloaded. -/
structure Knows (calls : List Record) (r : DownloadReconciler) : Prop where
  received : ∀ url, url ∈ r.received.map (·.url) ↔ url ∈ receivedUrls calls
  downloaded : ∀ url, url ∈ r.downloaded ↔ url ∈ downloadedUrls calls
  order : InOrderOfReceipt calls (r.received.map (·.url))

theorem receivedUrls_concat (calls : List Record) (call : Record) :
    receivedUrls (calls ++ [call]) = receivedUrls calls ++ receivedUrls [call] := List.filterMap_append

theorem downloadedUrls_concat (calls : List Record) (call : Record) :
    downloadedUrls (calls ++ [call]) = downloadedUrls calls ++ downloadedUrls [call] := List.filterMap_append

/-- Later calls do not change what came first. -/
theorem InOrderOfReceipt.concat {calls : List Record} {urls : List String} (h : InOrderOfReceipt calls urls)
    (hurls : ∀ url ∈ urls, url ∈ receivedUrls calls) (call : Record) : InOrderOfReceipt (calls ++ [call]) urls := by
  refine List.Pairwise.imp_of_mem (fun {u v} hu hv huv => ?_) h
  rw [receivedUrls_concat, List.idxOf_append_of_mem (hurls u hu), List.idxOf_append_of_mem (hurls v hv)]
  exact huv

section

variable {calls : List Record} {r : DownloadReconciler} (h : Knows calls r)

include h

theorem Knows.recordReceived (item : Downloadable) : Knows (calls ++ [.received item]) (r.recordReceived item) := by
  have hurls : receivedUrls (calls ++ [.received item]) = receivedUrls calls ++ [item.url] := receivedUrls_concat ..
  have hdownloaded : ∀ url, url ∈ r.downloaded ↔ url ∈ downloadedUrls (calls ++ [.received item]) := by
    intro url
    rw [h.downloaded, downloadedUrls_concat]
    exact (List.append_nil _).symm ▸ Iff.rfl
  have horder := h.order.concat (fun url => (h.received url).mp) (.received item)
  unfold DownloadReconciler.recordReceived
  split
  · rename_i hknown
    refine ⟨fun url => ?_, hdownloaded, horder⟩
    rw [hurls, h.received, List.mem_append, List.mem_singleton]
    exact ⟨.inl, fun hurl => hurl.elim id fun hurl => hurl ▸ (h.received _).mp hknown⟩
  · rename_i hnew
    refine ⟨fun url => ?_, hdownloaded, ?_⟩
    · rw [hurls, List.map_append, List.mem_append, List.mem_append, h.received]
      rfl
    · show InOrderOfReceipt _ ((r.received ++ [item]).map _)
      rw [List.map_append]
      refine List.pairwise_append.mpr ⟨horder, List.pairwise_singleton _ _, ?_⟩
      intro u hu v hv
      -- the new URL comes behind all that were received
      have hv : v = item.url := List.mem_singleton.mp hv
      have hfirst : v ∉ receivedUrls calls := fun hmem => hnew ((h.received _).mpr (hv ▸ hmem))
      have hknown := (h.received u).mp hu
      rw [hurls, List.idxOf_append_of_mem hknown, List.idxOf_append_of_notMem hfirst]
      exact Nat.lt_of_lt_of_le (List.idxOf_lt_length_of_mem hknown) (Nat.le_add_right _ _)

theorem Knows.recordDownloaded (item : Downloadable) :
    Knows (calls ++ [.downloaded item]) (r.recordDownloaded item) := by
  have hurls : receivedUrls (calls ++ [.downloaded item]) = receivedUrls calls :=
    (receivedUrls_concat ..).trans (List.append_nil _)
  refine ⟨fun url => ?_, fun url => ?_, h.order.concat (fun url => (h.received url).mp) _⟩
  · rw [hurls]
    exact h.received url
  · show url ∈ item.url :: r.downloaded ↔ _
    rw [downloadedUrls_concat, List.mem_append, List.mem_cons, h.downloaded, or_comm]
    exact or_congr_right List.mem_singleton.symm

theorem Knows.recordFailed (item : Downloadable) (reason : Failure) :
    Knows (calls ++ [.failed item reason]) (r.recordFailed item reason) := by
  have hreceived : receivedUrls (calls ++ [.failed item reason]) = receivedUrls calls :=
    (receivedUrls_concat ..).trans (List.append_nil _)
  have hdownloaded : downloadedUrls (calls ++ [.failed item reason]) = downloadedUrls calls :=
    (downloadedUrls_concat ..).trans (List.append_nil _)
  refine ⟨fun url => ?_, fun url => ?_, h.order.concat (fun url => (h.received url).mp) _⟩
  · rw [hreceived]
    exact h.received url
  · rw [hdownloaded]
    exact h.downloaded url

/-- Another call. -/
theorem Knows.record (call : Record) : Knows (calls ++ [call]) (r.record call) := by
  cases call with
  | received item => exact h.recordReceived item
  | downloaded item => exact h.recordDownloaded item
  | failed item reason => exact h.recordFailed item reason

end

theorem knows_reconciled (calls : List Record) : Knows calls (reconciled calls) := by
  induction calls using List.reverseRecOn with
  | nil => exact ⟨fun _ => Iff.rfl, fun _ => Iff.rfl, .nil⟩
  | append_singleton calls call ih =>
      unfold reconciled
      rw [List.foldl_concat]
      exact ih.record call

/-! ## Sums -/

theorem sum_map_ite_add_length_filter {α : Type} (p : α → Prop) [DecidablePred p] (l : List α) :
    (l.map fun a => if p a then 1 else 0).sum + (l.filter fun a => ¬ p a).length = l.length := by
  induction l with
  | nil => rfl
  | cons a l ih =>
      rw [List.map_cons, List.sum_cons, List.filter_cons, List.length_cons]
      by_cases ha : p a
      · simp only [ha, if_true, not_true_eq_false, decide_false, Bool.false_eq_true, if_false]
        omega
      · simp only [ha, if_false, not_false_eq_true, decide_true, if_true, List.length_cons]
        omega

namespace DownloadReconciler

variable (r : DownloadReconciler)

theorem sum_expected : (r.breakdown.map fun p => p.2.2).sum = r.expected := by
  have hnew : ∀ item old, (r.counted item old).2 = (old.map Prod.snd).getD 0 + 1 := by
    intro item old
    cases old <;> rfl
  unfold breakdown
  rw [sum_foldl_setItem hnew (fun item => item.path.str)]
  simp [expected]

theorem sum_downloaded : (r.breakdown.map fun p => p.2.1).sum + r.missing.length = r.expected := by
  have hnew : ∀ item old, (r.counted item old).1 =
      (old.map Prod.fst).getD 0 + if item.url ∈ r.downloaded then 1 else 0 := by
    intro item old
    cases old <;> rfl
  have hsum : (r.breakdown.map fun p => p.2.1).sum =
      (r.received.map fun item => if item.url ∈ r.downloaded then 1 else 0).sum := by
    unfold breakdown
    rw [sum_foldl_setItem hnew (fun item => item.path.str)]
    simp
  rw [hsum]
  exact sum_map_ite_add_length_filter (fun item => item.url ∈ r.downloaded) r.received

end DownloadReconciler

/-- **The numbers of the reconciler agree**, whatever it was told. -/
theorem reconciler_accounts (calls : List Record) :
    ((reconciled calls).breakdown.map fun p => p.2.2).sum = (reconciled calls).expected ∧
      ((reconciled calls).breakdown.map fun p => p.2.1).sum + (reconciled calls).missing.length =
        (reconciled calls).expected ∧
      (∀ url, url ∈ (reconciled calls).missing.map (·.url) ↔
        url ∈ receivedUrls calls ∧ url ∉ downloadedUrls calls) ∧
      InOrderOfReceipt calls ((reconciled calls).missing.map (·.url)) := by
  have h := knows_reconciled calls
  refine ⟨(reconciled calls).sum_expected, (reconciled calls).sum_downloaded, fun url => ?_, ?_⟩
  · rw [← h.received, ← h.downloaded]
    unfold DownloadReconciler.missing
    simp only [List.mem_map, List.mem_filter, decide_eq_true_eq]
    constructor
    · rintro ⟨item, ⟨hitem, hmissing⟩, rfl⟩
      exact ⟨⟨item, hitem, rfl⟩, hmissing⟩
    · rintro ⟨⟨item, hitem, rfl⟩, hmissing⟩
      exact ⟨item, ⟨hitem, hmissing⟩, rfl⟩
  · exact h.order.sublist (List.filter_sublist.map _)

end Etos.Cli
