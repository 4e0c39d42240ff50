import StrixPEP.Gateway.PermitSpec

/-!
# Specifications of the handler

One lemma for each method of `Gateway`, from the end of `_inside` to `handle`: every handler keeps
`Ready` between attempts, meets the requirements of its steps and has dealt with its attempts when
it ends.
-/

namespace StrixPEP

open Threads KillSwitch GProg Fields

/-- The records of an attempt that has a permit and no outcome. -/
def Permitted (es : List Entry) : Prop :=
  ∃ auth permit mid, es = auth :: permit :: mid ∧ auth.isAuth = true ∧ permit.isPermit = true ∧
    ∀ e ∈ mid, e.isAttempted = true

section Records

variable {es : List Entry} {e : Entry}

theorem Permitted.settled (h : Permitted es) (he : e.isSettled = true) : Concluded (es ++ [e]) := by
  obtain ⟨auth, permit, mid, rfl, ha, hp, hm⟩ := h
  exact ⟨auth, permit, mid, e, [], by simp, ha, hp, hm, he, by simp⟩

theorem Permitted.attempted (h : Permitted es) (he : e.isAttempted = true) :
    Permitted (es ++ [e]) := by
  obtain ⟨auth, permit, mid, rfl, ha, hp, hm⟩ := h
  refine ⟨auth, permit, mid ++ [e], by simp, ha, hp, fun x hx => ?_⟩
  rcases List.mem_append.1 hx with hx | hx
  · exact hm x hx
  · rw [List.mem_singleton.1 hx]
    exact he

theorem Concluded.reported (h : Concluded es) (he : e.isReport = true) : Concluded (es ++ [e]) := by
  obtain ⟨auth, permit, mid, s, tail, rfl, ha, hp, hm, hs, ht⟩ := h
  refine ⟨auth, permit, mid, s, tail ++ [e], by simp, ha, hp, hm, hs, fun x hx => ?_⟩
  rcases List.mem_append.1 hx with hx | hx
  · exact ht x hx
  · rw [List.mem_singleton.1 hx]
    exact he

end Records

namespace Gateway

section Effect

variable {boot : List Line} {i : Nat} {x : Exchange} {permit : EffectPermit} {es : List Entry}
  {grip : Option PermitCell} {w : World}

/-- What `settle` is told of a failure. -/
theorem outcome_reason (text : String) : ∀ f ∈ [("reason", str text)], f.1 ∈ outcomeKeys ∧ f.2.plain = true := by
  simp [outcomeKeys, Value.plain, str]

theorem wp_settlePermit {E : Exn → World → Prop} {o : Settlement} {extra : Fields} {c a : String}
    (I : GatewayInv boot w) (h : Ended i c a grip Permitted w) (hp : permit.attemptId = a)
    (hextra : ∀ f ∈ extra, f.1 ∈ outcomeKeys ∧ f.2.plain = true) :
    (gatewayProtocol boot).wp i (EffectGate.settlePermit permit c o extra)
      (fun _ => Ended i c a grip Concluded) E w :=
  wp_settle I h (congrArg some hp) hextra rfl fun _ hes => hes.settled rfl

/-- `_deny_tls`; it raises only where its record is lost. -/
theorem wp_denyTls {A : World → Prop} (hA : Kept i A) (hi : i ≠ 0) (I : GatewayInv boot w) (h : A w)
    (s : ConnectionState) (reason url method : String) :
    (gatewayProtocol boot).wp i (denyTls s reason url method) (fun _ => A)
      (fun _ w => A w ∧ w.lost = true) w := by
  have hrespond : (gatewayProtocol boot).wp i respond (fun _ => A) (fun _ w => A w ∧ w.lost = true) w :=
    wp_inert_cmd hA hi trivial h fun _ w I h => wp_ret hA h fun _ _ h => h
  exact Protocol.wp_seq hrespond I fun _ _ _ h => wp_blocked hA hi (regular_denyTls _ _ _ _) h

/-- `_deny_tls` as the end of a method. -/
theorem wp_denyEnd {A : World → Prop} (hA : Kept i A) (hi : i ≠ 0) (h : A w) (reason : String) :
    (gatewayProtocol boot).wp i (x.deny reason) (fun _ => A) (fun _ => A) w :=
  wp_inert hA hi (issues_denyTls _ _ _ _) h

/-- An outcome is recorded and the client is told. -/
theorem wp_settleDeny (hi : i ≠ 0) {o : Settlement} {text reason : String}
    (I : GatewayInv boot w) (h : Ended i x.state.connId x.attemptId grip Permitted w)
    (hp : permit.attemptId = x.attemptId) :
    (gatewayProtocol boot).wp i
      (do
        EffectGate.settlePermit permit x.state.connId o [("reason", str text)]
        x.deny reason)
      (fun _ => Ended i x.state.connId x.attemptId grip Concluded)
      (fun _ w => Ended i x.state.connId x.attemptId grip Concluded w ∧ w.lost = true) w :=
  Protocol.wp_seq (wp_settlePermit I h hp (outcome_reason text)) I fun _ _ I h =>
    wp_denyTls (kept_ended i _ _ _ Concluded) hi I h _ _ _ _

/-- The stream is relayed and recorded. -/
theorem wp_relay (hi : i ≠ 0) (h : Ended i x.state.connId x.attemptId grip Permitted w)
    (hp : permit.attemptId = x.attemptId) (pin : Pin) :
    (gatewayProtocol boot).wp i (relay x permit pin)
      (fun _ => Ended i x.state.connId x.attemptId grip Concluded)
      (fun _ => Ended i x.state.connId x.attemptId grip Concluded) w := by
  refine wp_inert_cmd (kept_ended i _ _ grip Permitted) hi trivial h fun streamed w I h => ?_
  dsimp only
  split
  · refine Protocol.wp_seq (wp_settlePermit I h hp ?_) I fun _ w I h => ?_
    · simp [outcomeKeys, Value.plain, str, int]
    exact wp_auditWrite_ended h rfl trivial rfl fun es hes => hes.reported rfl
  · refine Protocol.wp_seq (wp_settlePermit I h hp ?_) I fun _ w I h => ?_
    · simp [outcomeKeys, Value.plain, str, int]
    exact wp_auditWrite_ended h rfl trivial rfl fun es hes => hes.reported rfl

end Effect

/-! ## With a permit -/

section Permit

variable {boot : List Line} {i : Nat} {x : Exchange} {p : EffectPermit} {intent : Intent}
  {seq : Nat} {pin : Pin} {w : World}

/-- The intent and the permit of the exchange. -/
def granted (x : Exchange) (intent : Intent) (seq : Nat) (p : EffectPermit) : List Entry :=
  [.auth intent seq, .permit x.attemptId x.state.connId intent.epoch p.lifecycleSeq
    intent.policyGeneration intent.budgetBinding]

/-- The intent, the permit and the attempt of the exchange. -/
def attempting (x : Exchange) (intent : Intent) (seq : Nat) (p : EffectPermit) (pin : Pin) :
    List Entry :=
  granted x intent seq p ++
    [.attempted x.attemptId x.state.connId intent.epoch p.lifecycleSeq pin]

theorem permitted_granted : Permitted (granted x intent seq p) :=
  ⟨_, _, [], rfl, rfl, rfl, by simp⟩

theorem permitted_attempting : Permitted (attempting x intent seq p pin) :=
  permitted_granted.attempted rfl

/-- What `_inside` holds from `acquire_permit` on. -/
structure Grant (x : Exchange) (intent : Intent) (p : EffectPermit) : Prop where
  attempt : p.attemptId = x.attemptId
  epoch : p.epoch = intent.epoch
  intentAttempt : intent.attemptId = x.attemptId
  intentConn : intent.connId = x.state.connId

/-- What must be on record before `plain.connect`. -/
theorem Grant.writeAhead (G : Grant x intent p) (I : GatewayInv boot w)
    (H : Handling i x.state.connId x.attemptId (attempting x intent seq p pin)
      (some (PermitCell.durable p x.state.connId)) w) :
    WriteAhead w x.attemptId x.state.connId := by
  refine ⟨intent, seq, p, pin, H.entries, G.intentAttempt, G.intentConn, ?_, G.attempt⟩
  exact I.lifecycle.cell_permit (List.mem_of_getElem? (H.grip _ rfl).2)

/-- The client is told and `_inside` returns. -/
theorem wp_denyReturn {A : World → Prop} (hA : Kept i A) (hi : i ≠ 0) (I : GatewayInv boot w)
    (h : A w) (reason : String) {Q : Bool → World → Prop} (hQ : ∀ w, A w → Q false w) :
    (gatewayProtocol boot).wp i
      (do
        x.deny reason
        return false) Q (fun _ => A) w :=
  Protocol.wp_seq (wp_denyEnd hA hi h reason) I fun _ _ _ h => wp_ret hA h fun w _ h => hQ w h

/-- `plain.connect` and what follows it up to the transfer. -/
theorem wp_openUpstream (hi : i ≠ 0) (I : GatewayInv boot w) (G : Grant x intent p)
    (H : Handling i x.state.connId x.attemptId (attempting x intent seq p pin)
      (some (PermitCell.durable p x.state.connId)) w) (plain : Nat) :
    (gatewayProtocol boot).wp i (openUpstream x p pin plain)
      (fun up w => if up then Ended i x.state.connId x.attemptId
          (some (PermitCell.durable p x.state.connId)) Permitted w
        else Ended i x.state.connId x.attemptId (some (PermitCell.durable p x.state.connId))
          Concluded w)
      (fun _ => Ended i x.state.connId x.attemptId (some (PermitCell.durable p x.state.connId))
        Concluded) w := by
  have hH := kept_handling i x.state.connId x.attemptId (attempting x intent seq p pin)
    (some (PermitCell.durable p x.state.connId))
  have hopen := kept_ended i x.state.connId x.attemptId
    (some (PermitCell.durable p x.state.connId)) Permitted
  have hclosed := kept_ended i x.state.connId x.attemptId
    (some (PermitCell.durable p x.state.connId)) Concluded
  refine Protocol.wp_tryCatch (Protocol.wp_mono (E := fun _ => Ended i x.state.connId x.attemptId
    (some (PermitCell.durable p x.state.connId)) Permitted) ?_ (fun _ _ _ h => h)
    fun e w I h => ?_) I
  · refine Protocol.wp_perform fun t ht It => ?_
    have Ht := hH.rely H ht
    refine ⟨G.writeAhead It Ht, fun (r : Except Exn Unit) t' he => ?_⟩
    cases he
    have ht : Ended i x.state.connId x.attemptId (some (PermitCell.durable p x.state.connId))
      Permitted t := ⟨_, Ht, Or.inr permitted_attempting⟩
    cases r with
    | error e => exact wp_fail hopen ht fun _ _ h => h
    | ok _ =>
      refine wp_inert_seq hopen hi issues_ask It ht (fun _ _ h => h) fun up w I h => ?_
      refine wp_inert_seq hopen hi (issues_transfer _ _ _) I h (fun _ _ h => h) fun ok w I h => ?_
      cases ok with
      | true => exact wp_ret hopen h fun _ _ h => h
      | false =>
        refine Protocol.wp_seq (wp_settlePermit I h G.attempt (outcome_reason _)) I fun _ w I h => ?_
        refine Protocol.wp_seq (Protocol.wp_mono (wp_denyTls hclosed hi I h _ _ _ _)
          (fun _ _ _ h => h) fun _ w _ h => ?_) I fun _ w I h => ?_
        · obtain ⟨⟨es, H, -⟩, hl⟩ := h
          exact ⟨es, H, Or.inl (Or.inl hl)⟩
        · exact wp_ret hclosed h fun _ _ h => h
  · split
    · refine Protocol.wp_seq (wp_settlePermit I h G.attempt (outcome_reason _)) I fun _ w I h => ?_
      refine wp_inert_seq hclosed hi (issues_auditWrite (regular_labels x.state (by simp [labels])
        (by simp [Value.plain, str, Pin.asTuple]))) I h (fun _ _ h => h) fun _ w I h => ?_
      exact wp_denyReturn hclosed hi I h _ fun _ h => h
    · refine Protocol.wp_seq (wp_settlePermit I h G.attempt (outcome_reason _)) I fun _ w I h => ?_
      exact wp_denyReturn hclosed hi I h _ fun _ h => h
    · refine Protocol.wp_seq (wp_settlePermit I h G.attempt (outcome_reason _)) I fun _ w I h => ?_
      exact wp_denyReturn hclosed hi I h _ fun _ h => h

/-- `mark_attempted`, after the terminal check. -/
theorem wp_markAttempted (I : GatewayInv boot w) (G : Grant x intent p)
    (H : Handling i x.state.connId x.attemptId (granted x intent seq p)
      (some (PermitCell.durable p x.state.connId)) w) (hpoised : Poised i w) :
    (gatewayProtocol boot).wp i (EffectGate.markAttempted p x.state.connId pin)
      (fun _ => Handling i x.state.connId x.attemptId (attempting x intent seq p pin)
        (some (PermitCell.durable p x.state.connId)))
      (fun _ w => w.lost = true ∧ Handling i x.state.connId x.attemptId (granted x intent seq p)
        (some (PermitCell.durable p x.state.connId)) w) w := by
  have hwrite : (gatewayProtocol boot).wp i
      (auditWrite (.attempted x.attemptId x.state.connId intent.epoch p.lifecycleSeq pin)) _ _ w :=
    wp_auditWrite H rfl trivial fun _ => hpoised
  unfold EffectGate.markAttempted
  rw [G.attempt, G.epoch]
  refine Protocol.wp_tryCatch (Protocol.wp_mono hwrite (fun _ _ _ h => h) fun _ w _ h => ?_) I
  exact fun u hu _ => ⟨hu.lost h.1, (kept_handling i _ _ _ _).rely h.2 hu⟩

/-- **The effect with a permit in hand**: every way out leaves the attempt with its outcome. -/
theorem wp_permitted (hi : i ≠ 0) (G : Grant x intent p)
    (H : Handling i x.state.connId x.attemptId (granted x intent seq p)
      (some (PermitCell.durable p x.state.connId)) w) (plain : Nat) :
    (gatewayProtocol boot).wp i (permitted x p pin plain)
      (fun _ => Ended i x.state.connId x.attemptId (some (PermitCell.durable p x.state.connId))
        Concluded)
      (fun _ => Ended i x.state.connId x.attemptId (some (PermitCell.durable p x.state.connId))
        Concluded) w := by
  have hclosed := kept_ended i x.state.connId x.attemptId
    (some (PermitCell.durable p x.state.connId)) Concluded
  have hopen := kept_ended i x.state.connId x.attemptId
    (some (PermitCell.durable p x.state.connId)) Permitted
  refine wp_checkTerminal H fun terminal w I H hpoised => ?_
  cases terminal with
  | true =>
    have h : Ended i x.state.connId x.attemptId (some (PermitCell.durable p x.state.connId))
      Permitted w := ⟨_, H, Or.inr permitted_granted⟩
    exact Protocol.wp_mono (wp_settleDeny hi I h G.attempt) (fun _ _ _ h => h) fun _ _ _ h => h.1
  | false =>
    refine Protocol.wp_seq (J := fun marked w => if marked then Handling i x.state.connId
        x.attemptId (attempting x intent seq p pin) (some (PermitCell.durable p x.state.connId)) w
      else Ended i x.state.connId x.attemptId (some (PermitCell.durable p x.state.connId))
        Concluded w) ?_ I fun marked w I h => ?_
    · refine Protocol.wp_tryCatch (Protocol.wp_seq (Protocol.wp_mono
        (wp_markAttempted I G H (hpoised rfl)) (fun _ _ _ h => h) fun e w I h => ?_) I
        fun _ w I H => ?_) I
      · have hlost : Ended i x.state.connId x.attemptId (some (PermitCell.durable p x.state.connId))
          Concluded w := ⟨_, h.2, Or.inl (Or.inl h.1)⟩
        split
        · exact wp_denyReturn hclosed hi I hlost _ fun _ h => h
        · exact wp_fail hclosed hlost fun _ _ h => h
      · exact wp_ret (kept_handling i _ _ _ _) H fun _ _ h => h
    · cases marked with
      | false => exact wp_ret hclosed h fun _ _ h => h
      | true =>
        refine Protocol.wp_seq (wp_openUpstream hi I G h plain) I fun up w I h => ?_
        cases up with
        | false => exact wp_ret hclosed h fun _ _ h => h
        | true =>
          refine Protocol.wp_seq (wp_unguarded hopen hi h (fun _ => rfl) fun e w h hu => ?_) I
            fun _ w I h => ?_
          · obtain ⟨es, H, -⟩ := h
            exact ⟨es, H, Or.inl (Or.inr hu)⟩
          refine wp_inert_cmd hopen hi trivial h fun (sent : Except Exn Unit) w I h => ?_
          cases sent with
          | error e =>
            exact Protocol.wp_mono (wp_settleDeny hi I h G.attempt) (fun _ _ _ h => h)
              fun _ _ _ h => h.1
          | ok _ => exact wp_relay hi h G.attempt pin

end Permit

/-! ## From the intent to the permit -/

section Attempt

variable {boot : List Line} {i : Nat} {x : Exchange} {gate : EffectGate} {seq : Nat} {w : World}

theorem Ended.ready {c a : String} {grip : Option PermitCell} (h : Ended i c a grip Finished w) :
    Ready i c w := by
  obtain ⟨es, H, h⟩ := h
  exact H.conclude h

/-- An attempt without a permit is settled and the client is told. -/
theorem wp_settleAttemptDeny (hi : i ≠ 0) (I : GatewayInv boot w)
    (H : Handling i x.state.connId x.attemptId [.auth x.intent seq] none w) (o : Settlement)
    (text reason : String) :
    (gatewayProtocol boot).wp i
      (do
        gate.settleAttempt x.attemptId x.state.connId o [("reason", str text)]
        x.deny reason)
      (fun _ => Ready i x.state.connId) (fun _ => Ready i x.state.connId) w := by
  refine Protocol.wp_seq (wp_settle (T := fun es => es = [.auth x.intent seq]) I
    ⟨_, H, Or.inr rfl⟩ rfl (outcome_reason text) rfl fun es hes => ?_) I fun _ w I h =>
    wp_denyEnd (kept_ready i _) hi (Ended.ready h) reason
  exact Or.inl ⟨_, _, by rw [hes]; rfl, rfl, rfl⟩

/-- **The effect of an attempt whose intent is on record.** -/
theorem wp_effect (hi : i ≠ 0) (hgate : gate.lookup x.attemptId = some x.intent)
    (hint : x.intent.attemptId = x.attemptId) (current : Decision) (pin : Pin)
    (H : Handling i x.state.connId x.attemptId [.auth x.intent seq] none w) :
    (gatewayProtocol boot).wp i (effect x gate current pin)
      (fun _ => Ready i x.state.connId) (fun _ => Ready i x.state.connId) w := by
  have hH := kept_handling i x.state.connId x.attemptId [.auth x.intent seq] none
  have hready := kept_ready i x.state.connId
  refine wp_inert_cmd hH hi trivial H fun (created : Except Exn Nat) w I H => ?_
  cases created with
  | error e => exact wp_settleAttemptDeny hi I H _ _ _
  | ok plain =>
    refine Protocol.wp_seq (wp_onNet hH hi (issues_trackOrReject _ _) H) I fun tracked w I H => ?_
    cases tracked with
    | false => exact wp_settleAttemptDeny hi I H _ _ _
    | true =>
      refine Protocol.wp_seq (J := fun acquired w => match acquired with
        | none => Ready i x.state.connId w
        | some r => Acquired i x.state.connId x.attemptId [.auth x.intent seq] x.intent x.epoch
          current.policyGeneration current.budgetBinding r w) ?_ I fun acquired w I h => ?_
      · refine Protocol.wp_tryCatch (Protocol.wp_seq (Protocol.wp_mono (wp_acquirePermit hgate H)
          (fun _ _ _ h => h) fun e w I h => ?_) I fun r w I h => ?_) I
        · have hlost := h.2.conclude (Or.inl (Or.inl h.1))
          split
          · refine Protocol.wp_seq (wp_denyEnd hready hi hlost _) I fun _ w I h => ?_
            exact wp_ret hready h fun _ _ h => h
          · exact wp_fail hready hlost fun _ _ h => h
        · cases r with
          | none => exact wp_ret hH h fun _ _ h => h
          | some p => exact fun u hu _ => ⟨(kept_handling i _ _ _ _).rely h.1 hu, h.2⟩
      · match acquired, h with
        | none, h => exact wp_ret hready h fun _ _ h => h
        | some none, h => exact wp_settleAttemptDeny hi I h _ _ _
        | some (some p), h =>
          obtain ⟨H, hpa, hpe, hbinds⟩ := h
          obtain ⟨-, -, hgen, hbud, hepoch, hconn⟩ := of_decide_eq_true hbinds
          have G : Grant x x.intent p := ⟨hpa, hpe.trans hepoch.symm, hint, hconn⟩
          have H' : Handling i x.state.connId x.attemptId (granted x x.intent seq p)
              (some (PermitCell.durable p x.state.connId)) w := by
            rw [← hgen, ← hbud, ← hepoch] at H
            exact H
          exact Protocol.wp_tryFinally (Protocol.wp_mono (wp_permitted hi G H' plain)
            (fun _ _ _ h => wp_release G.attempt h) fun _ _ _ h => wp_release G.attempt h) I

/-- **`_inside` from the recheck of the policy on.** -/
theorem wp_recheck (hi : i ≠ 0) (hgate : gate.lookup x.attemptId = some x.intent)
    (hint : x.intent.attemptId = x.attemptId)
    (H : Handling i x.state.connId x.attemptId [.auth x.intent seq] none w) :
    (gatewayProtocol boot).wp i (recheck x gate)
      (fun _ => Ready i x.state.connId) (fun _ => Ready i x.state.connId) w := by
  have hH := kept_handling i x.state.connId x.attemptId [.auth x.intent seq] none
  refine wp_query hH hi H fun (decided : Except Exn Decision) w I H hu => ?_
  cases decided with
  | error e => exact wp_settleAttemptDeny hi I H _ _ _
  | ok current =>
    dsimp only
    split
    · exact wp_settleAttemptDeny hi I H _ _ _
    rename_i hsame
    simp only [not_or, Bool.not_eq_true, Bool.not_eq_false', ne_eq, not_not] at hsame
    obtain ⟨hallow, -, hpin, -, -⟩ := hsame
    split
    · rename_i hnone
      have hun : w.unguarded = true := by
        refine hu ?_
        show (current.allow && current.pin.isNone) = true
        rw [hpin, hnone]
        simpa using hallow
      exact fun t ht _ => (hH.rely H ht).giveUp (ht.unguarded hun)
    · rename_i pin hpin'
      refine Protocol.wp_seq (wp_unguarded hH hi H (fun _ => rfl) fun _ _ H hu => H.giveUp hu) I
        fun _ w I H => ?_
      exact wp_effect hi hgate hint current pin H

end Attempt

/-! ## One request -/

section Request

variable {boot : List Line} {i : Nat} {w : World}

/-- **`_inside` from the new attempt on.** -/
theorem wp_committing (hi : i ≠ 0) (t : Tunnel) (head : Head) (d : Decision)
    (h : Ready i t.state.connId w) :
    (gatewayProtocol boot).wp i (committing t head d)
      (fun _ => Ready i t.state.connId) (fun _ => Ready i t.state.connId) w := by
  have hready := kept_ready i t.state.connId
  refine wp_inert_cmd hready hi trivial h fun (epoch : Nat) w I h => ?_
  refine wp_inert_cmd hready hi trivial h fun (uuid : String) w I h => ?_
  dsimp only
  split
  · exact wp_inert hready hi (issues_denyTls _ _ _ _) h
  refine wp_inert_cmd hready hi trivial h fun (runId : String) w I h => ?_
  generalize hint : sanitizedIntent runId t.state.connId ("att-" ++ uuid) epoch
    (t.state.programId.getD "") d.policyGeneration head.method t.state.canonical head.path
    t.state.pin (orElse t.cred "none") d.budgetBinding head.preBody.length = intent
  have hattempt : intent.attemptId = "att-" ++ uuid := by
    rw [← hint]
    rfl
  refine Protocol.wp_seq (J := fun committed w => committed.elim (Ready i t.state.connId w)
    fun gate => gate = [(intent.attemptId, intent)] ∧
      ∃ seq, Handling i t.state.connId intent.attemptId [.auth intent seq] none w) ?_ I
    fun committed w I h => ?_
  · refine Protocol.wp_tryCatch (Protocol.wp_seq (Protocol.wp_mono (wp_commitIntent hi intent h)
      (fun _ _ _ h => h) fun e w I h => ?_) I fun gate w I h => ?_) I
    · have hdeny : ∀ reason, (gatewayProtocol boot).wp i
          (do
            denyTls t.state reason (t.label ++ head.path) head.method
            return none)
          (fun committed w => committed.elim (Ready i t.state.connId w)
            fun gate => gate = [(intent.attemptId, intent)] ∧
              ∃ seq, Handling i t.state.connId intent.attemptId [.auth intent seq] none w)
          (fun _ => Ready i t.state.connId) w := fun reason =>
        Protocol.wp_seq (wp_inert hready hi (issues_denyTls _ _ _ _) h) I fun _ _ _ h =>
          wp_ret hready h fun _ _ h => h
      split
      · exact hdeny _
      · exact hdeny _
      · exact wp_fail hready h fun _ _ h => h
    · obtain ⟨hgate, seq, H⟩ := h
      exact wp_ret (kept_handling i _ _ _ _) H fun _ _ H => ⟨hgate, seq, H⟩
  · cases committed with
    | none => exact wp_ret hready h fun _ _ h => h
    | some gate =>
      obtain ⟨rfl, seq, H⟩ := h
      rw [hattempt] at H ⊢
      exact wp_recheck hi (by simp) hattempt H

/-- **`_inside` once the PDP has allowed the request.** -/
theorem wp_allowed (hi : i ≠ 0) (t : Tunnel) (head : Head) (d : Decision)
    (h : Ready i t.state.connId w) :
    (gatewayProtocol boot).wp i (allowed t head d)
      (fun _ => Ready i t.state.connId) (fun _ => Ready i t.state.connId) w := by
  unfold allowed
  split
  · exact wp_inert_cmd (kept_ready i _) hi trivial h fun _ w I h => wp_committing hi t head d h
  · exact wp_committing hi t head d h

variable {canonicalHost : String → Option String}

/-- `_inside` with the head in hand. -/
theorem wp_request (hi : i ≠ 0) (t : Tunnel) (head : Head) (h : Ready i t.state.connId w) :
    (gatewayProtocol boot).wp i (request canonicalHost t head)
      (fun _ => Ready i t.state.connId) (fun _ => Ready i t.state.connId) w := by
  have hready := kept_ready i t.state.connId
  have hdeny : ∀ {w} reason url method, Ready i t.state.connId w → (gatewayProtocol boot).wp i
      (denyTls t.state reason url method) (fun _ => Ready i t.state.connId)
      (fun _ => Ready i t.state.connId) w := fun _ _ _ h =>
    wp_inert hready hi (issues_denyTls _ _ _ _) h
  unfold request
  dsimp only
  split
  · exact hdeny _ _ _ h
  refine wp_inert_cmd hready hi trivial h fun (decided : Except Exn Decision) w I h => ?_
  cases decided with
  | error e => exact hdeny _ _ _ h
  | ok d =>
    dsimp only
    split
    · exact hdeny _ _ _ h
    · exact wp_allowed hi t head d h

/-- **`_inside`.** -/
theorem wp_inside (hi : i ≠ 0) (t : Tunnel) (I : GatewayInv boot w)
    (h : Ready i t.state.connId w) :
    (gatewayProtocol boot).wp i (inside canonicalHost t)
      (fun _ => Ready i t.state.connId) (fun _ => Ready i t.state.connId) w := by
  have hready := kept_ready i t.state.connId
  unfold inside
  split
  · exact wp_inert hready hi (issues_denyTls _ _ _ _) h
  refine wp_inert_seq hready hi issues_ask I h (fun _ _ h => h) fun received w I h => ?_
  split
  · exact wp_request hi t _ h
  · exact wp_fail hready h fun _ _ h => h
  · exact wp_inert hready hi (issues_auditWrite (regular_labels t.state (by simp [labels])
      (by simp [Value.plain, str]))) h

end Request

/-! ## One connection -/

section Connection

variable {boot : List Line} {i : Nat} {w : World} {canonicalHost : String → Option String}

/-- `_connect_flow` once the certificate is loaded. -/
theorem wp_handshake (hi : i ≠ 0) (state : ConnectionState) (r : ConnectRequest) (port : Nat)
    (I : GatewayInv boot w) (h : Ready i state.connId w) :
    (gatewayProtocol boot).wp i (handshake canonicalHost state r port)
      (fun _ => Ready i state.connId) (fun _ => Ready i state.connId) w := by
  have hready := kept_ready i state.connId
  refine wp_inert_seq hready hi (issues_trackOrReject _ _) I h (fun _ _ h => h) fun _ w I h => ?_
  refine wp_inert_seq hready hi issues_ask I h (fun _ _ h => h) fun _ w I h => ?_
  refine wp_inert_cmd hready hi trivial h
    fun (wrapped : Except Exn (Nat × Option String)) w I h => ?_
  match wrapped with
  | .error e =>
    dsimp only
    split
    · exact wp_inert hready hi (issues_auditWrite (regular_labels state (by simp [labels])
        (by simp [Value.plain, str]))) h
    · exact wp_fail hready h fun _ _ h => h
  | .ok (tls, sni) =>
    refine wp_inert_seq hready hi (issues_transfer _ _ _) I h (fun _ _ h => h) fun ok w I h => ?_
    cases ok with
    | false => exact wp_ret hready h fun _ _ h => h
    | true => exact wp_inside hi ⟨state, port, r.session, r.asset, r.cred, sni⟩ I h

/-- **`_connect_flow`.** -/
theorem wp_connectFlow (hi : i ≠ 0) (state : ConnectionState) (r : ConnectRequest) (host : String)
    (port : Nat) (h : Ready i state.connId w) :
    (gatewayProtocol boot).wp i (connectFlow canonicalHost state r host port)
      (fun _ => Ready i state.connId) (fun _ => Ready i state.connId) w := by
  have hready := kept_ready i state.connId
  have hdeny : ∀ {w} reason s, Ready i state.connId w → (gatewayProtocol boot).wp i
      (deny reason s!"CONNECT {r.target}" "CONNECT" r.clientIp s) (fun _ => Ready i state.connId)
      (fun _ => Ready i state.connId) w := fun _ _ h =>
    wp_inert hready hi (issues_deny _ _ _ _ _) h
  refine wp_inert_cmd hready hi trivial h fun (decided : Except Exn Decision) w I h => ?_
  cases decided with
  | error e => exact hdeny _ _ h
  | ok d =>
    dsimp only
    split
    · exact hdeny _ _ h
    refine wp_inert_cmd hready hi trivial h fun (leaf : Except Exn Unit) w I h => ?_
    cases leaf with
    | error e =>
      dsimp only
      split
      · exact hdeny _ _ h
      · exact wp_fail hready h fun _ _ h => h
    | ok _ =>
      refine wp_inert_seq hready hi issues_ask I h (fun _ _ h => h) fun _ w I h => ?_
      refine wp_inert_seq hready hi issues_ask I h (fun _ _ h => h) fun _ w I h => ?_
      refine wp_inert_cmd hready hi trivial h fun (loaded : Except Exn Unit) w I h => ?_
      cases loaded with
      | error e => exact hdeny _ _ h
      | ok _ => exact wp_handshake hi _ r port I h

/-- The `finally` of `do_CONNECT`. -/
theorem wp_cleanUp (hi : i ≠ 0) {E : Exn → World → Prop} (c : String) (I : GatewayInv boot w)
    (hc : (c, i) ∈ w.conns) (h : Idle i w) :
    (gatewayProtocol boot).wp i (cleanUp c) (fun _ => Idle i) E w := by
  have hA : Kept i fun w => (c, i) ∈ w.conns ∧ Idle i w :=
    ⟨fun h hr => ⟨(hr.conns c h.1).1, (kept_idle i).rely h.2 hr⟩, fun h => h.2.1⟩
  refine Protocol.wp_seq (wp_onNet hA hi (issues_terminate c) ⟨hc, h⟩) I fun _ w I h => ?_
  refine Protocol.wp_perform fun t ht It => ?_
  obtain ⟨hc, h⟩ := hA.rely h ht
  refine ⟨⟨trivial, hc, h.2⟩, fun r t' he => ?_⟩
  obtain ⟨n, -, rfl⟩ := exec_net (i := i) (c := .remove c) he
  refine wp_inert_cmd (A := Idle i) (kept_idle i) hi trivial ⟨h.1, h.2⟩ fun _ w _ h => ?_
  exact wp_ret (kept_idle i) h fun _ _ h => h

/-- The records of `do_CONNECT` itself. -/
theorem issues_refuse (state : ConnectionState) (r : ConnectRequest) (reason : String) :
    (refuse state r reason).Issues Inert :=
  issues_auditWrite ⟨by simp [labels], by simp [labels, Value.plain, str]⟩

/-- **`do_CONNECT` with a slot.** -/
theorem wp_connection (hi : i ≠ 0) (r : ConnectRequest) (host : String) (port : Nat)
    (h : Idle i w) :
    (gatewayProtocol boot).wp i (connection canonicalHost r host port) (fun _ => Idle i)
      (fun _ => Idle i) w := by
  refine Protocol.wp_perform fun t ht It => ⟨trivial, fun (c : String) t' he => ?_⟩
  have It' := inv_exec (c := .newConnId) (i := i) It trivial he
  have hA : Kept i fun w => (c, i) ∈ w.conns ∧ Idle i w :=
    ⟨fun h hr => ⟨(hr.conns c h.1).1, (kept_idle i).rely h.2 hr⟩, fun h => h.2.1⟩
  have hconn : (c, i) ∈ t'.conns ∧ Idle i t' := by
    have hidle := (kept_idle i).rely h ht
    simp only [gatewayMachine, World.exec] at he
    split at he
    · cases he
    · cases he
      exact ⟨by simp, hidle⟩
  have hready : ∀ w, Ready i c w → (c, i) ∈ w.conns ∧ Idle i w := fun w h => ⟨h.conn, h.idle⟩
  refine Protocol.wp_tryFinally (Protocol.wp_mono
    (Q := fun _ w => (c, i) ∈ w.conns ∧ Idle i w) (E := fun _ w => (c, i) ∈ w.conns ∧ Idle i w) ?_
    (fun _ w I h => wp_cleanUp hi c I h.1 h.2) fun _ w I h => wp_cleanUp hi c I h.1 h.2) It'
  refine Protocol.wp_tryCatch (Protocol.wp_mono
    (Q := fun _ w => (c, i) ∈ w.conns ∧ Idle i w) (E := fun _ w => (c, i) ∈ w.conns ∧ Idle i w) ?_
    (fun _ _ _ h => h) fun e w I h => wp_inert hA hi (issues_refuse _ _ _) h) It'
  refine Protocol.wp_perform fun u hu Iu => ?_
  obtain ⟨hc, hidle⟩ := hA.rely hconn hu
  refine ⟨⟨trivial, hc⟩, fun (added : Bool) u' he' => ?_⟩
  have Iu' := inv_exec (c := .net (.add c)) (i := i) Iu ⟨trivial, hc⟩ he'
  obtain ⟨n, hn, rfl⟩ := exec_net (i := i) (c := .add c) he'
  cases added with
  | false => exact wp_inert hA hi (issues_refuse _ _ _) ⟨hc, hidle⟩
  | true =>
    have hr : Ready i c { u with net := n, live := World.liveAfter u.live (.add c) true } :=
      ⟨hidle.1, hc, by simp [World.liveAfter], hidle.2⟩
    exact Protocol.wp_mono (wp_connectFlow hi _ r host port hr) (fun _ w _ h => hready w h)
      fun _ w _ h => hready w h

/-- `_deny` before there is a connection. -/
theorem wp_denyEarly (hi : i ≠ 0) (I : GatewayInv boot w) (reason url method src : String)
    (h : Idle i w) :
    (gatewayProtocol boot).wp i (denyEarly reason url method src) (fun _ => Idle i)
      (fun _ => Idle i) w :=
  wp_inert_seq (kept_idle i) hi (issues_deny _ _ _ _ _) I h (fun _ _ h => h) fun _ _ _ h =>
    wp_ret (kept_idle i) h fun _ _ h => h

/-- **`do_CONNECT`.** -/
theorem wp_doConnect (hi : i ≠ 0) (I : GatewayInv boot w) (r : ConnectRequest) (h : Idle i w) :
    (gatewayProtocol boot).wp i (doConnect canonicalHost r) (fun _ => Idle i) (fun _ => Idle i) w := by
  have hidle := kept_idle i
  unfold doConnect
  dsimp only
  split
  · exact wp_denyEarly hi I _ _ _ _ h
  split
  · exact wp_denyEarly hi I _ _ _ _ h
  split
  · exact wp_fail hidle h fun _ _ h => h
  refine wp_inert_cmd hidle hi trivial h fun (acquired : Bool) w I h => ?_
  cases acquired with
  | false => exact wp_denyEarly hi I _ _ _ _ h
  | true =>
    exact Protocol.wp_seq (wp_connection hi r _ _ h) I fun _ _ _ h => wp_ret hidle h fun _ _ h => h

/-- One dispatch. -/
theorem wp_dispatch (hi : i ≠ 0) (I : GatewayInv boot w) (r : Request) (h : Idle i w) :
    (gatewayProtocol boot).wp i (dispatch canonicalHost r) (fun _ => Idle i) (fun _ => Idle i) w :=
  match r with
  | .none none => wp_ret (kept_idle i) h fun _ _ h => h
  | .none (some _) => wp_fail (kept_idle i) h fun _ _ h => h
  | .get _ _ => wp_denyEarly hi I _ _ _ _ h
  | .other _ _ _ => wp_denyEarly hi I _ _ _ _ h
  | .connect r => wp_doConnect hi I r h

/-- One request after another. -/
theorem wp_requests (hi : i ≠ 0) (rs : List Request) (I : GatewayInv boot w) (h : Idle i w) :
    (gatewayProtocol boot).wp i (requests canonicalHost rs) (fun _ => Idle i) (fun _ => Idle i) w := by
  have hidle := kept_idle i
  induction rs generalizing w with
  | nil => exact wp_ret hidle h fun _ _ h => h
  | cons r rs ih =>
    refine Protocol.wp_seq (J := fun _ => Idle i) (Protocol.wp_tryCatch (Protocol.wp_seq
      (Protocol.wp_mono (wp_dispatch hi I r h) (fun _ _ _ h => h) fun e w I h => ?_) I
      fun more w I h => ?_) I) I fun more w I h => ?_
    · split
      · exact wp_ret hidle h fun _ _ h => h
      · exact wp_fail hidle h fun _ _ h => h
    · refine wp_inert_seq hidle hi issues_ask I h (fun e w h => ?_) fun _ w I h =>
        wp_ret hidle h fun _ _ h => h
      split
      · exact wp_ret hidle h fun _ _ h => h
      · exact wp_fail hidle h fun _ _ h => h
    · split
      · exact ih I h
      · exact wp_ret hidle h fun _ _ h => h

/-- The `finally` of `handle`. -/
theorem wp_endProducer (h : Idle i w) :
    (gatewayProtocol boot).wp i endProducer (fun _ w => w.Clean i none)
      (fun _ w => w.Clean i none) w := by
  refine Protocol.wp_perform fun t ht It => ?_
  obtain ⟨hp, hclean⟩ := (kept_idle i).rely h ht
  refine ⟨hp, fun (ok : Bool) t' he => ?_⟩
  have hclean' : t'.Clean i none := by
    obtain ⟨-, rfl⟩ := Net.give_eq_some.1 he
    exact hclean
  cases ok with
  | true => exact fun u hu _ => hclean'.rely hu
  | false => exact fun u hu _ => hclean'.rely hu

/-- **`handle`**: when a handler ends it has dealt with its attempts. -/
theorem wp_handle (hi : i ≠ 0) (rs : List Request) (h : w.Clean i none) :
    (gatewayProtocol boot).wp i (handle canonicalHost rs) (fun _ w => w.Clean i none)
      (fun _ w => w.Clean i none) w := by
  refine Protocol.wp_perform fun t ht It => ⟨trivial, fun (ok : Bool) t' he => ?_⟩
  have It' := inv_exec (c := .beginProducer) (i := i) It trivial he
  have hcleant : t.Clean i none := h.rely ht
  have hclean : t'.Clean i none := by
    obtain ⟨-, rfl⟩ := Net.give_eq_some.1 he
    exact hcleant
  cases ok with
  | false => exact fun u hu _ => hclean.rely hu
  | true =>
    have hidle : Idle i t' := by
      obtain ⟨-, rfl⟩ := Net.give_eq_some.1 he
      exact ⟨List.mem_cons_self, hclean⟩
    exact Protocol.wp_tryFinally (Protocol.wp_mono (wp_requests hi rs It' hidle)
      (fun _ _ _ h => wp_endProducer h) fun _ _ _ h => wp_endProducer h) It'

end Connection

end Gateway

end StrixPEP
