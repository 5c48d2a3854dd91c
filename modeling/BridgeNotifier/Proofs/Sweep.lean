import BridgeNotifier.Proofs.Execution
import BridgeNotifier.Proofs.Routine
set_option autoImplicit false

namespace BridgeNotifier

theorem Word.toNat_succ_of_lt {low high : UInt64} (h : low < high) :
    (low + 1).toNat = low.toNat + 1 := by
  have hlt : low.toNat < high.toNat := h
  have hmax := high.toNat_lt
  have h1 : (1 : UInt64).toNat = 1 := rfl
  rw [UInt64.toNat_add, h1, Nat.mod_eq_of_lt (by omega)]

abbrev Setup.key (s : Setup) (w : Watermark) : String := w.key s.config.namespaceName

namespace Surroundings.Shows
open Routine

variable {σ : Type} {S : Surroundings σ} {ints : σ → String → Option UInt64}
variable {I : σ → Prop} {C : Contract σ} {E : Error → σ → Prop} {w : σ}
variable {s : Setup} {Q : Outcome → σ → Prop}

theorem ensures_tick (hS : S.Shows ints E) (hI : I w) {t : Task} (locked : Q .locked w)
    (h : (s.sweep t).Ensures S I C E w Q) : (s.tick t).Ensures S I C E w Q :=
  hS.ensures_guarded hI locked h

theorem ensures_advance_bind (hS : S.Shows ints E) (hI : I w) {k : Watermark} {value : UInt64}
    {f : Bool → Routine Outcome}
    (h : Moves S ints I (s.key k) value w fun t => I t → ∀ b, (f b).Ensures S I C E t Q) :
    (Checkpoint.advance s.config.namespaceName k value >>= f).Ensures S I C E w Q :=
  ensures_bind (((hS.ensures_advance hI h).keeping hI).mono fun b _ ht => ht.2 ht.1 b)

/-- What is left of a maturity sweep once its window is known. -/
def Matures (S : Surroundings σ) (ints : σ → String → Option UInt64) (I : σ → Prop)
    (C : Contract σ) (E : Error → σ → Prop) (s : Setup) (oldHead newHead : UInt64) (t : σ)
    (Q : Outcome → σ → Prop) : Option BlockRange → Prop
  | none => Moves S ints I (s.key .head) newHead t (Q (.advanced oldHead newHead 0))
  | some range =>
    (s.scan .maturity s.config.maturity.network range .pendingAutoClaim).run.Ensures S I C E t
      fun summary u => Moves S ints I (s.key .scanned) range.high u fun v =>
        Moves S ints I (s.key .head) newHead v (Q (.advanced oldHead newHead summary.dispatched))

theorem Moves.mono {key : String} {value : UInt64} {P R : σ → Prop}
    (h : Moves S ints I key value w P) (hPR : ∀ t, P t → R t) : Moves S ints I key value w R :=
  ⟨fun hle => hPR w (h.1 hle), fun hlt t ht => ⟨(h.2 hlt t ht).1, hPR t (h.2 hlt t ht).2⟩⟩

theorem ensures_sweepMaturity_of_head (hS : S.Shows ints E) (hI : I w)
    (stay : ∀ newHead, S w ⟨.chain .head, .ok newHead⟩ w →
      newHead ≤ (ints w (s.key .head)).getD 0 → Q .noChange w)
    (move : ∀ newHead depth t, S w ⟨.chain .head, .ok newHead⟩ w →
      (ints w (s.key .head)).getD 0 < newHead → S w ⟨.depth, depth⟩ t →
      I t ∧ Matures S ints I C E s ((ints w (s.key .head)).getD 0) newHead t Q
        (matured? ((ints w (s.key .head)).getD 0) newHead depth (ints t (s.key .scanned)))) :
    s.sweepMaturity.Ensures S I C E w Q := by
  have moved : ∀ {old new dispatched : UInt64} {t : σ}, I t →
      Moves S ints I (s.key .head) new t (Q (.advanced old new dispatched)) →
      (s.recordHead old new dispatched).Ensures S I C E t Q := by
    intro old new dispatched t ht h
    refine hS.ensures_advance_bind ht (h.mono fun u hQ hu b => ?_)
    exact ensures_bind (hS.ensures_measure hu (ensures_pure hQ))
  refine ensures_bind (hS.ensures_get hI ?_)
  refine ensures_bind (hS.ensures_chain hI ?_)
  intro newHead answered
  by_cases hle : newHead ≤ (ints w (s.key .head)).getD 0
  · simp only [if_pos hle]
    exact ensures_pure (stay newHead answered hle)
  · simp only [if_neg hle]
    refine ensures_bind (ensures_lift ?_)
    intro depth t ht
    obtain ⟨hIt, h⟩ := move newHead depth t answered (UInt64.not_le.1 hle) ht
    refine ⟨hIt, ensures_bind (hS.ensures_get? hIt ?_)⟩
    generalize matured? _ newHead depth (ints t (s.key .scanned)) = window at h ⊢
    cases window with
    | none => exact ensures_bind (ensures_pure (moved hIt h))
    | some range =>
      refine ensures_bind ((h.keeping hIt).mono ?_)
      rintro summary u ⟨hu, hm⟩
      refine hS.ensures_advance_bind hu (hm.mono fun v hv hIv b => ?_)
      exact ensures_bind (ensures_pure (moved hIv hv))

theorem ensures_sweepMaturity (hS : S.Shows ints E) (hI : I w) (stay : Q .noChange w)
    (move : ∀ newHead depth t, (ints w (s.key .head)).getD 0 < newHead → S w ⟨.depth, depth⟩ t →
      I t ∧ Matures S ints I C E s ((ints w (s.key .head)).getD 0) newHead t Q
        (matured? ((ints w (s.key .head)).getD 0) newHead depth (ints t (s.key .scanned)))) :
    s.sweepMaturity.Ensures S I C E w Q :=
  hS.ensures_sweepMaturity_of_head hI (fun _ _ _ => stay) fun newHead depth t _ =>
    move newHead depth t

/-- What is left of a batch sweep once its blocks are scanned: the two watermarks and a sample. -/
def Settles (S : Surroundings σ) (ints : σ → String → Option UInt64) (I : σ → Prop) (s : Setup)
    (r : Role) (newCeiling latest : UInt64) (t : σ) (Q : σ → Prop) : Prop :=
  Moves S ints I (s.key r.ceiling) newCeiling t fun u =>
    Moves S ints I (s.key r.batch) latest u fun v =>
      Q v ∧ ∀ average, Writes S I (s.estimator r).averageKey average v Q

theorem ensures_recordDuration (hS : S.Shows ints E) (hI : I w) {r : Role} {P : σ → Prop} (h : P w)
    (written : ∀ average, Writes S I (s.estimator r).averageKey average w P) :
    (s.recordDuration r).Ensures S I C E w fun _ t => P t := by
  refine ensures_bind (ensures_lift (hS.ensures_request hI (fun _ => rfl) fun now => ?_))
  have measured : ∀ (m : Measurement) {t : σ}, I t → P t →
      (Routine.measure m).Ensures S I C E t fun _ u => P u :=
    fun m t ht hP => hS.ensures_measure ht hP
  have sampled : ((s.estimator r).recordSample (now / 1000)).Ensures S I C E w fun _ t => P t := by
    refine ensures_bind (hS.ensures_store hI (fun x => by cases x <;> rfl) fun length => ?_)
    split
    · exact ensures_pure h
    · refine ensures_bind (hS.ensures_store hI (fun x => by cases x <;> rfl) fun oldest => ?_)
      split
      · exact ensures_pure h
      split
      · exact ensures_pure h
      · exact ensures_bind (hS.ensures_setInt hI fun t ht =>
          ⟨(written _ t ht).1, ensures_pure (written _ t ht).2⟩)
  refine ensures_bind ((sampled.keeping hI).mono ?_)
  rintro outcome t ⟨ht, hP⟩
  cases outcome with
  | filling n => exact ensures_pure hP
  | overflow => exact ensures_pure hP
  | accepted average => exact measured _ ht hP
  | rejected average => exact measured _ ht hP

theorem ensures_sweepBatch_of_latest (hS : S.Shows ints E) (hI : I w) {r : Role}
    (stay : ∀ latest, S w ⟨.chain r.latest, .ok latest⟩ w →
      latest ≤ (ints w (s.key r.batch)).getD 0 → Q .noChange w)
    (scan : ∀ latest newCeiling, S w ⟨.chain r.latest, .ok latest⟩ w →
      S w ⟨.chain (.lastBlock latest), .ok newCeiling⟩ w →
      (ints w (s.key r.batch)).getD 0 < latest →
      (ints w (s.key r.ceiling)).getD 0 < newCeiling →
      (s.scan (.batch r) (s.batchConfig r).network
        ⟨(ints w (s.key r.ceiling)).getD 0 + 1, newCeiling⟩ r.status).run.Ensures S I C E w
          fun summary t => Settles S ints I s r newCeiling latest t
            (Q (.advanced ((ints w (s.key r.batch)).getD 0) latest summary.dispatched)))
    (pass : ∀ latest newCeiling, S w ⟨.chain r.latest, .ok latest⟩ w →
      S w ⟨.chain (.lastBlock latest), .ok newCeiling⟩ w →
      (ints w (s.key r.batch)).getD 0 < latest →
      newCeiling ≤ (ints w (s.key r.ceiling)).getD 0 →
      Settles S ints I s r newCeiling latest w
        (Q (.advanced ((ints w (s.key r.batch)).getD 0) latest 0))) :
    (s.sweepBatch r).Ensures S I C E w Q := by
  have settled : ∀ {stored latest newCeiling dispatched : UInt64} {t : σ}, I t →
      Settles S ints I s r newCeiling latest t (Q (.advanced stored latest dispatched)) →
      (s.settleBatch r newCeiling stored latest dispatched).Ensures S I C E t Q := by
    intro stored latest newCeiling dispatched t ht h
    have rest : ∀ {u : σ}, I u → Moves S ints I (s.key r.batch) latest u (fun v =>
        Q (.advanced stored latest dispatched) v ∧ ∀ average, Writes S I (s.estimator r).averageKey
          average v (Q (.advanced stored latest dispatched))) →
        (s.recordBatch r stored latest dispatched).Ensures S I C E u Q := by
      intro u hu hm
      refine hS.ensures_advance_bind hu (hm.mono fun v hv hIv b => ?_)
      refine ensures_bind (hS.ensures_measure hIv ?_)
      exact ensures_bind ((hS.ensures_recordDuration hIv hv.1 hv.2).mono fun _ _ hQ => ensures_pure hQ)
    refine hS.ensures_advance_bind ht (h.mono fun u hm hu b => ?_)
    cases b with
    | false => exact rest hu hm
    | true => exact ensures_bind (hS.ensures_measure hu (rest hu hm))
  refine ensures_bind (hS.ensures_chain hI ?_)
  intro latest answered
  refine ensures_bind (hS.ensures_get hI ?_)
  by_cases hle : latest ≤ (ints w (s.key r.batch)).getD 0
  · simp only [if_pos hle]
    exact ensures_pure (stay latest answered hle)
  · simp only [if_neg hle]
    have hlt := UInt64.not_le.1 hle
    refine ensures_bind (hS.ensures_chain hI ?_)
    intro newCeiling counted
    refine ensures_bind (hS.ensures_get hI ?_)
    by_cases hc : (ints w (s.key r.ceiling)).getD 0 < newCeiling
    · simp only [if_pos hc]
      have scanned := scan latest newCeiling answered counted hlt hc
      refine ensures_bind ((scanned.keeping hI).mono ?_)
      exact fun summary t ht => ensures_bind (ensures_pure (settled ht.1 ht.2))
    · simp only [if_neg hc]
      have passed := pass latest newCeiling answered counted hlt (UInt64.not_lt.1 hc)
      exact ensures_bind (ensures_pure (settled hI passed))

theorem ensures_sweepBatch (hS : S.Shows ints E) (hI : I w) {r : Role} (stay : Q .noChange w)
    (scan : ∀ latest newCeiling, (ints w (s.key r.batch)).getD 0 < latest →
      (ints w (s.key r.ceiling)).getD 0 < newCeiling →
      (s.scan (.batch r) (s.batchConfig r).network
        ⟨(ints w (s.key r.ceiling)).getD 0 + 1, newCeiling⟩ r.status).run.Ensures S I C E w
          fun summary t => Settles S ints I s r newCeiling latest t
            (Q (.advanced ((ints w (s.key r.batch)).getD 0) latest summary.dispatched)))
    (pass : ∀ latest newCeiling, (ints w (s.key r.batch)).getD 0 < latest →
      newCeiling ≤ (ints w (s.key r.ceiling)).getD 0 →
      Settles S ints I s r newCeiling latest w
        (Q (.advanced ((ints w (s.key r.batch)).getD 0) latest 0))) :
    (s.sweepBatch r).Ensures S I C E w Q :=
  hS.ensures_sweepBatch_of_latest hI (fun _ _ _ => stay)
    (fun latest newCeiling _ _ => scan latest newCeiling)
    fun latest newCeiling _ _ => pass latest newCeiling

theorem ensures_sweepFeed (hS : S.Shows ints E) (hI : I w) {f : Feed}
    (begin : ints w (s.key f.watermark) = none →
      (Setup.latestId f).Ensures S I C E w fun latest t =>
        ((ints t (s.key f.watermark)).isSome = true → Q .noChange t) ∧
          (ints t (s.key f.watermark) = none →
            Writes S I (s.key f.watermark) latest t (Q .noChange)))
    (follow : ∀ start, ints w (s.key f.watermark) = some start →
      Routine.Ensures S I C E (Routine.ofProgram (Program.loop (.feed s f start 0))) w fun r t =>
        Q (if r.1 = start then .noChange else .advanced start r.1 r.2) t) :
    (s.sweepFeed f).Ensures S I C E w Q := by
  refine ensures_bind (hS.ensures_get? hI ?_)
  cases h : ints w (s.key f.watermark) with
  | none =>
    refine ensures_bind (((begin h).keeping hI).mono ?_)
    rintro latest t ⟨ht, hset, hnew⟩
    exact ensures_bind ((hS.ensures_seed ht hset hnew).mono fun _ _ hQ => ensures_pure hQ)
  | some start =>
    refine ensures_bind (((follow start h).keeping hI).mono ?_)
    rintro ⟨last, dispatched⟩ t ⟨ht, hQ⟩
    dsimp only at hQ ⊢
    split
    · rename_i heq
      exact ensures_pure (by simpa only [heq, if_true] using hQ)
    · rename_i hne
      exact ensures_bind (hS.ensures_measure ht (ensures_pure (by simpa only [hne, if_false] using hQ)))

end Surroundings.Shows
end BridgeNotifier
