import ForgeGuard.EventRuns

/-! A consumer of the events endpoint as a replica: what the fold of its pages is worth. -/

namespace ForgeGuard
open Interleaving Dynamo

section
variable {signer : Signer} {orgId : String} {s₀ : Table} {es : List EventEnvelope} {st : FoldedState}

theorem StoreInv.unchanged {t : Table} (h : StoreInv orgId t es st) :
    ∃ new st', new.length ≤ 1 ∧ StoreInv orgId t (es ++ new) st' :=
  ⟨[], st, by simp, by simpa using h⟩

theorem StoreInv.visited {t : Table} (h : StoreInv orgId t es st) {q : (ReplicaService orgId).Request}
    (hq : ReplicaAsk signer orgId q) (c : (ReplicaService orgId).Choice) : ∃ new st', new.length ≤ 1 ∧
      StoreInv orgId (visit (S := ReplicaService orgId) t q c).after (es ++ new) st' := by
  cases q with
  | inr q => exact h.unchanged
  | inl q =>
    obtain ⟨P, g, hask⟩ := hq
    rcases hask.effect t c.1 with hsame | hmints | ⟨change, -, hc⟩
    · exact (hsame.symm ▸ h).unchanged
    · exact (h.mints hmints).unchanged
    · obtain ⟨e, -, -, hnext⟩ := h.commits hc
      exact ⟨[e], change.fold st, by simp, hnext⟩

variable (signer) (hnew : Unwritten s₀) {ls : List (Label (ReplicaService orgId) (EventsCall orgId))}
include hnew

/-- One step of a run appends one event at most. -/
theorem runEvents_snoc (l : Label (ReplicaService orgId) (EventsCall orgId))
    (h : StoreInv orgId (runEvents signer orgId s₀ ls).store es st) : ∃ new st', new.length ≤ 1 ∧
      StoreInv orgId (runEvents signer orgId s₀ (ls ++ [l])).store (es ++ new) st' := by
  have hinv := runEvents_inv signer ⟨[], .of_unwritten hnew⟩ ls
  have hrun : runEvents signer orgId s₀ (ls ++ [l]) =
      (runEvents signer orgId s₀ ls).next (EventsCall.run signer orgId) l := List.foldl_append
  rw [hrun]
  rcases Config.next_cases (EventsCall.run signer orgId) (runEvents signer orgId s₀ ls) l with
    heq | ⟨i, call, -, -, heq⟩ | ⟨i, choice, call, g, q, k, -, hc, heq⟩
  · rw [heq]
    exact h.unchanged
  · rw [heq]
    exact h.unchanged
  · rw [heq]
    exact h.visited (hinv.asks i _ hc).1 choice

theorem runEvents_storeInv (ls : List (Label (ReplicaService orgId) (EventsCall orgId))) :
    ∃ es st, StoreInv orgId (runEvents signer orgId s₀ ls).store es st := by
  induction ls using List.reverseRecOn with
  | nil => exact ⟨[], .empty, .of_unwritten hnew, rfl, .of_unwritten hnew⟩
  | append_singleton ls l ih =>
    obtain ⟨es, st, h⟩ := ih
    obtain ⟨new, st', -, hnext⟩ := runEvents_snoc signer hnew l h
    exact ⟨_, st', hnext⟩

theorem runEvents_later (n : Nat) :
    Continues orgId (runEvents signer orgId s₀ (ls.take n)).store (runEvents signer orgId s₀ ls).store := by
  have hsplit : runEvents signer orgId s₀ ls =
      (runEvents signer orgId s₀ (ls.take n)).run (EventsCall.run signer orgId) (ls.drop n) := by
    simp only [runEvents, Config.run, ← List.foldl_append, List.take_append_drop]
  rw [hsplit]
  exact Config.Inv.run_later Continues.refl Continues.trans (fun s call _ => call.run_asks signer s)
    (fun _ _ _ _ c hq hi _ _ => hq.keepsLog hi c) (runEvents_inv signer ⟨[], .of_unwritten hnew⟩ _)
    (Guard.free_admitsRun _ _ _)

/-- The counter skips no revision. -/
theorem exists_at_revision {k : Nat} (hk : k ≤ counter (runEvents signer orgId s₀ ls).store) :
    ∃ n ≤ ls.length, counter (runEvents signer orgId s₀ (ls.take n)).store = k := by
  induction ls using List.reverseRecOn with
  | nil =>
    have hzero := (LogHolds.of_unwritten hnew : LogHolds orgId s₀ []).counter_eq
    exact ⟨0, le_rfl, le_antisymm (hzero.trans_le (Nat.zero_le k)) hk⟩
  | append_singleton ls l ih =>
    obtain ⟨es, st, h⟩ := runEvents_storeInv signer hnew ls
    obtain ⟨new, st', hone, hnext⟩ := runEvents_snoc signer hnew l h
    by_cases hle : k ≤ counter (runEvents signer orgId s₀ ls).store
    · obtain ⟨n, hn, hcounter⟩ := ih hle
      refine ⟨n, by simp; omega, ?_⟩
      rwa [List.take_append_of_le_length hn]
    · refine ⟨ls.length + 1, by simp, ?_⟩
      rw [hnext.log.counter_eq, List.length_append] at hk
      rw [h.log.counter_eq] at hle
      rw [List.take_of_length_le (by simp), hnext.log.counter_eq, List.length_append]
      omega

end

/-- In every interleaving, the fold of the pages that a consumer has received up to its cursor `k` is a
state the store was in: at every moment of the run at which the log was at revision `k`, and there is one,
the stored principals, promotions and groups are those of the fold. -/
theorem consumer_replicates (signer : Signer) (orgId : String) (s₀ : Table) (hnew : Unwritten s₀)
    (ls : List (Label (ReplicaService orgId) (EventsCall orgId)))
    (hroom : counter (runEvents signer orgId s₀ ls).store < 2 ^ 64 - 1) (pages : List EventsPage) (k : Nat)
    (h : Consumed (runEvents signer orgId s₀ ls) pages k) :
    ∃ st, foldAtLatest (pages.flatMap (·.events)) k = .ok st ∧
      (∃ n, counter (runEvents signer orgId s₀ (ls.take n)).store = k) ∧
      ∀ n, counter (runEvents signer orgId s₀ (ls.take n)).store = k →
        Mirrors (runEvents signer orgId s₀ (ls.take n)).store st := by
  obtain ⟨log, final, hfinal⟩ := runEvents_storeInv signer hnew ls
  rw [hfinal.log.counter_eq] at hroom
  obtain ⟨hpages, hk, -⟩ := h.pages_eq ⟨[], .of_unwritten hnew⟩ hfinal.log hroom
  have hmoment : ∀ n, counter (runEvents signer orgId s₀ (ls.take n)).store = k → ∃ st,
      foldAtLatest (log.take k) k = .ok st ∧ Mirrors (runEvents signer orgId s₀ (ls.take n)).store st := by
    intro n hn
    obtain ⟨es, st, hes⟩ := runEvents_storeInv signer hnew (ls.take n)
    have hlength : es.length = k := by rw [← hes.log.counter_eq, hn]
    obtain ⟨new, hlog⟩ := runEvents_later signer hnew n es hes.log
    obtain ⟨r, hfold⟩ := foldAtLatest_replay hes.log.numbered hes.folds
    rw [hfinal.log.unique hlog, ← hlength, List.take_left]
    exact ⟨_, hfold, hes.mirrors.principals, hes.mirrors.promotions, hes.mirrors.promotionItems,
      hes.mirrors.promotionKeys, hes.mirrors.groups⟩
  obtain ⟨n, -, hn⟩ := exists_at_revision signer hnew (hk.trans_eq hfinal.log.counter_eq.symm)
  obtain ⟨st, hfold, -⟩ := hmoment n hn
  rw [hpages]
  refine ⟨st, hfold, ⟨n, hn⟩, fun n' hn' => ?_⟩
  obtain ⟨st', hfold', hmirrors⟩ := hmoment n' hn'
  rwa [Except.ok.inj (hfold.symm.trans hfold')]

namespace EventSamples

theorem watched_replicated : ∃ st, foldAtLatest ([watchedPage, ⟨[], 1, 1⟩].flatMap (·.events)) 1 = .ok st ∧
    ∃ n, Mirrors (runEvents sampleSigner "acme" sampleTable (watchedWrite.take n)).store st := by
  obtain ⟨-, -, -, hroom⟩ := watched_answers
  obtain ⟨st, hfold, ⟨n, hn⟩, hmirrors⟩ := consumer_replicates sampleSigner "acme" sampleTable sampleTable_unwritten
    watchedWrite hroom _ 1 watched_consumed
  exact ⟨st, hfold, n, hmirrors n hn⟩

end EventSamples

end ForgeGuard
