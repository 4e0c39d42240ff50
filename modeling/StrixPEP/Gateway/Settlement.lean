import StrixPEP.Gateway.Runs

/-!
# The outcome of every committed attempt

`GatewayInv` and the specification of the handlers speak of the entries that were handed to `write`;
here they are read off the records, in whose texts the registered secrets are replaced.

* `Settled` — the entries of an attempt that is done with;
* `SettledIn` — the same of the records, by their `attempt_id` and `decision`;
* `attempt_settled` — the records of an attempt when its handler is done with it.
-/

namespace StrixPEP

open Threads

/-! ## The entries of an attempt -/

/-- One outcome; with a permit, one release, and it comes after the outcome. -/
structure Settled (es : List Entry) : Prop where
  once : (es.filter Entry.isSettled).length = 1
  released : (∃ e ∈ es, e.isPermit = true) →
    (es.filter Entry.isReleased).length = 1 ∧
      ∃ before s after, es = before ++ s :: after ∧ s.isSettled = true ∧
        ∃ r ∈ after, r.isReleased = true

/-- Neither an outcome nor a release. -/
theorem Entry.neither {e : Entry}
    (h : (e.isAuth || e.isPermit || e.isAttempted || e.isReport) = true) :
    e.isSettled = false ∧ e.isReleased = false := by
  cases e <;> first | exact ⟨rfl, rfl⟩ | cases h

theorem Entry.outcome_or_release {e : Entry} :
    (e.isSettled = true → e.isReleased = false) ∧ (e.isReleased = true → e.isSettled = false) := by
  cases e <;> simp [isSettled, isReleased]

theorem Entry.filter_neither (es : List Entry)
    (h : ∀ e ∈ es, (e.isAuth || e.isPermit || e.isAttempted || e.isReport) = true) :
    es.filter Entry.isSettled = [] ∧ es.filter Entry.isReleased = [] := by
  constructor
  · exact List.filter_eq_nil_iff.2 fun e he => by simp [(Entry.neither (h e he)).1]
  · exact List.filter_eq_nil_iff.2 fun e he => by simp [(Entry.neither (h e he)).2]

theorem Concluded.settled {es : List Entry} (h : Concluded es) {r : Entry}
    (hr : r.isReleased = true) : Settled (es ++ [r]) := by
  obtain ⟨auth, permit, mid, s, tail, rfl, ha, hp, hmid, hs, htail⟩ := h
  have hauth := Entry.neither (e := auth) (by simp [ha])
  have hperm := Entry.neither (e := permit) (by simp [hp])
  have hm := Entry.filter_neither mid fun e he => by simp [hmid e he]
  have ht := Entry.filter_neither tail fun e he => by simp [htail e he]
  have hs' := Entry.outcome_or_release.1 hs
  have hr' := Entry.outcome_or_release.2 hr
  constructor
  · simp [hauth.1, hperm.1, hm.1, ht.1, hs, hr']
  · intro _
    refine ⟨by simp [hauth.2, hperm.2, hm.2, ht.2, hs', hr], auth :: permit :: mid, s,
      tail ++ [r], by simp, hs, r, ?_, hr⟩
    exact List.mem_append_right _ (List.mem_singleton_self _)

theorem Finished.settled {es : List Entry} (h : Finished es) : Settled es := by
  rcases h with ⟨auth, s, rfl, ha, hs⟩ | ⟨es', r, rfl, hc, hr⟩
  · have hauth := Entry.neither (e := auth) (by simp [ha])
    refine ⟨by simp [hauth.1, hs], fun ⟨e, he, hp⟩ => ?_⟩
    rcases List.mem_pair.1 he with rfl | rfl
    · cases e <;> simp [Entry.isAuth, Entry.isPermit] at ha hp
    · cases e <;> simp [Entry.isSettled, Entry.isPermit] at hs hp
  · exact hc.settled hr

/-! ## The records of an attempt -/

/-- The decisions of an outcome. -/
def outcomes : List String :=
  ["EFFECT_COMPLETED", "EFFECT_FAILED", "EFFECT_OUTCOME_UNKNOWN", "EFFECT_CANCELLED"]

/-- A record of the attempt with one of these decisions. -/
def Record.saysOf (a : String) (decisions : List String) (record : Record) : Bool :=
  decide (record.get? "attempt_id" = some (.str a)) &&
    decisions.any fun d => decide (record.get? "decision" = some (.str d))

/-- The records show one outcome of the attempt; with a permit, one release, after the outcome. -/
structure SettledIn (a : String) (records : List Record) : Prop where
  once : (records.filter (Record.saysOf a outcomes)).length = 1
  released : (∃ r ∈ records, r.saysOf a ["PERMIT_GRANTED"] = true) →
    (records.filter (Record.saysOf a ["PERMIT_RELEASED"])).length = 1 ∧
      ∃ s r : Record, [s, r].Sublist records ∧ s.saysOf a outcomes = true ∧
        r.saysOf a ["PERMIT_RELEASED"] = true

theorem Entry.decision_outcomes {e : Entry} : e.decision ∈ outcomes ↔ e.isSettled = true := by
  cases e with
  | settled o => cases o <;> simp [decision, Settlement.text, outcomes, isSettled]
  | _ => simp [decision, outcomes, isSettled]

theorem Entry.decision_released {e : Entry} :
    e.decision ∈ ["PERMIT_RELEASED"] ↔ e.isReleased = true := by
  cases e with
  | settled o => cases o <;> simp [decision, Settlement.text, isReleased]
  | _ => simp [decision, isReleased]

theorem Entry.decision_granted {e : Entry} :
    e.decision ∈ ["PERMIT_GRANTED"] ↔ e.isPermit = true := by
  cases e with
  | settled o => cases o <;> simp [decision, Settlement.text, isPermit]
  | _ => simp [decision, isPermit]

section

variable {B : Boot} {cfg : Config Exn Cmd Cmd.Resp World} {a : String} {decisions : List String}

/-- A record with such a decision is of an entry with it, and of the same attempt. -/
theorem Boot.Reachable.entry_says (h : B.Reachable cfg)
    (hids : ∀ p ∈ cfg.state.attempts, Spared cfg.state.audit.redaction p.1)
    (hplain : ∀ d ∈ decisions, '«' ∉ d.toList)
    (habout : ∀ e : Entry, e.decision ∈ decisions → ∃ b, e.attempt? = some b)
    {x : Written} (hx : x ∈ cfg.state.log) (hs : x.record.saysOf a decisions = true) :
    x.entry.attempt? = some a ∧ x.entry.decision ∈ decisions := by
  unfold Record.saysOf at hs
  rw [Bool.and_eq_true, decide_eq_true_eq, List.any_eq_true] at hs
  obtain ⟨hid, d, hd, hdec⟩ := hs
  have hdecision := h.decision hx (hplain d hd) (of_decide_eq_true hdec)
  obtain ⟨b, hb⟩ := habout x.entry (hdecision ▸ hd)
  -- the attempt of the entry is on the list, so its name stands in the record as it is
  obtain ⟨q, hq, rfl⟩ := List.mem_map.1 (h.inv.recorded x hx b hb)
  have htells : x.record.Tells cfg.state.audit.redaction [("attempt_id", Fields.str q.1)] :=
    h.tells hx (by simp [stampKeys, Entry.lookup_attempt hb (h.inv.regular x hx)])
  have hsame := htells.texts "attempt_id" q.1 List.mem_cons_self (hids q hq)
  rw [hid, Option.some.injEq, Json.str.injEq] at hsame
  exact ⟨by rw [hb, hsame], hdecision ▸ hd⟩

/-- And where the secrets spare the texts, the record of such an entry has its decision. -/
theorem Boot.Reachable.says_entry (h : B.Reachable cfg)
    (hids : ∀ p ∈ cfg.state.attempts, Spared cfg.state.audit.redaction p.1)
    (hspared : ∀ d ∈ decisions, Spared cfg.state.audit.redaction d)
    {x : Written} (hx : x ∈ cfg.state.log) (ha : x.entry.attempt? = some a)
    (hd : x.entry.decision ∈ decisions) : x.record.saysOf a decisions = true := by
  obtain ⟨q, hq, rfl⟩ := List.mem_map.1 (h.inv.recorded x hx a ha)
  have hdecision : x.entry.fields.lookup "decision" = some (Fields.str x.entry.decision) := rfl
  have htells : x.record.Tells cfg.state.audit.redaction
      [("attempt_id", Fields.str q.1), ("decision", Fields.str x.entry.decision)] :=
    h.tells hx (by simp [stampKeys, Entry.lookup_attempt ha (h.inv.regular x hx), hdecision])
  unfold Record.saysOf
  rw [Bool.and_eq_true, decide_eq_true_eq, List.any_eq_true]
  exact ⟨htells.texts _ _ (by simp) (hids q hq), x.entry.decision, hd,
    decide_eq_true (htells.texts _ _ (by simp) (hspared _ hd))⟩

/-- What is counted in the records is counted in the entries of the attempt. -/
theorem Boot.Reachable.filter_says (h : B.Reachable cfg) (hlost : cfg.state.lost = false)
    (hids : ∀ p ∈ cfg.state.attempts, Spared cfg.state.audit.redaction p.1)
    (hspared : ∀ d ∈ decisions, Spared cfg.state.audit.redaction d)
    (hplain : ∀ d ∈ decisions, '«' ∉ d.toList)
    (habout : ∀ e : Entry, e.decision ∈ decisions → ∃ b, e.attempt? = some b)
    {p : Entry → Bool} (hp : ∀ e : Entry, e.decision ∈ decisions ↔ p e = true) :
    ((cfg.state.log.map (·.record)).filter (Record.saysOf a decisions)).length =
      ((cfg.state.entriesOf a).filter p).length := by
  unfold World.entriesOf
  rw [List.filter_map, List.length_map, List.filter_map, List.length_map, List.filter_filter]
  congr 1
  refine List.filter_congr fun x hx => ?_
  have hok : x.ok = true := (h.inv.failed x hx).resolve_right (by simp [hlost])
  rw [Bool.eq_iff_iff]
  constructor
  · intro hs
    obtain ⟨ha, hd⟩ := h.entry_says hids hplain habout hx hs
    simp [(hp _).1 hd, hok, ha]
  · intro hs
    simp only [Function.comp_apply, Bool.and_eq_true, decide_eq_true_eq] at hs
    exact h.says_entry hids hspared hx hs.2.2 ((hp _).2 hs.1)

/-- **Every committed attempt is settled** once its handler has returned, has raised or removes its
connection: the records show one outcome, and with a permit one release after it, in every run in
which every write succeeds, no recheck allows without a pin, the upstream context is created, the
request is encoded, and no registered secret occurs in the decisions or in the name of an attempt. -/
theorem attempt_settled (h : B.Reachable cfg) (hlost : cfg.state.lost = false)
    (hguarded : cfg.state.unguarded = false)
    (hspared : ∀ d ∈ "PERMIT_RELEASED" :: outcomes, Spared cfg.state.audit.redaction d)
    (hids : ∀ p ∈ cfg.state.attempts, Spared cfg.state.audit.redaction p.1)
    {i : Nat} (hi : i ≠ 0) (hi' : i ≠ 1)
    (hend : (∃ u, cfg.pool i = .ret u) ∨ (∃ e, cfg.pool i = .raise e) ∨
      ∃ c k, cfg.pool i = .cmd (.net (.remove c)) k)
    (ha : (a, i) ∈ cfg.state.attempts) : SettledIn a (cfg.state.log.map (·.record)) := by
  have hsettled : Settled (cfg.state.entriesOf a) := by
    rcases h.clean hi hi' hend with hl | hu | hf
    · rw [hlost] at hl
      cases hl
    · rw [hguarded] at hu
      cases hu
    · exact (hf a ha nofun).settled
  have houtcomes : ∀ d ∈ outcomes, Spared cfg.state.audit.redaction d := fun d hd =>
    hspared d (List.mem_cons_of_mem _ hd)
  have hreleased : ∀ d ∈ ["PERMIT_RELEASED"], Spared cfg.state.audit.redaction d := fun d hd =>
    hspared d (List.mem_singleton.1 hd ▸ List.mem_cons_self)
  have habout : ∀ e : Entry, e.isSettled = true ∨ e.isReleased = true ∨ e.isPermit = true →
      ∃ b, e.attempt? = some b := by
    intro e he
    cases e <;> simp [Entry.isSettled, Entry.isReleased, Entry.isPermit, Entry.attempt?] at he ⊢
  constructor
  · rw [h.filter_says hlost hids houtcomes (by decide)
      (fun e hd => habout e (Or.inl (Entry.decision_outcomes.1 hd))) fun e => Entry.decision_outcomes]
    exact hsettled.once
  · rintro ⟨r, hr, hs⟩
    obtain ⟨x, hx, rfl⟩ := List.mem_map.1 hr
    obtain ⟨hxa, hxd⟩ := h.entry_says hids (by decide)
      (fun e hd => habout e (Or.inr (Or.inr (Entry.decision_granted.1 hd)))) hx hs
    have hok : x.ok = true := (h.inv.failed x hx).resolve_right (by simp [hlost])
    have hpermit : ∃ e ∈ cfg.state.entriesOf a, e.isPermit = true :=
      ⟨x.entry, List.mem_map.2 ⟨x, List.mem_filter.2 ⟨hx, by simp [hok, hxa]⟩, rfl⟩,
        Entry.decision_granted.1 hxd⟩
    obtain ⟨hone, before, s, after, hes, hset, r', hr', hrel⟩ := hsettled.released hpermit
    refine ⟨?_, ?_⟩
    · rw [h.filter_says hlost hids hreleased (by decide)
        (fun e hd => habout e (Or.inr (Or.inl (Entry.decision_released.1 hd))))
        fun e => Entry.decision_released]
      exact hone
    · have hpair : [s, r'].Sublist (cfg.state.entriesOf a) := by
        rw [hes]
        exact ((List.singleton_sublist.2 hr').cons_cons s).trans (List.sublist_append_right _ _)
      obtain ⟨ys, hys, hmap⟩ := List.sublist_map_iff.1 hpair
      obtain ⟨y, _, rfl, hy, hmap⟩ := List.map_eq_cons_iff.1 hmap.symm
      obtain ⟨z, rfl, hz⟩ := List.map_eq_singleton_iff.1 hmap
      have hof : ∀ t ∈ [y, z], t ∈ cfg.state.log ∧ t.entry.attempt? = some a := by
        intro t ht
        obtain ⟨hlog, hp⟩ := List.mem_filter.1 (hys.subset ht)
        rw [Bool.and_eq_true, decide_eq_true_eq] at hp
        exact ⟨hlog, hp.2⟩
      refine ⟨y.record, z.record, ?_, ?_, ?_⟩
      · exact (hys.trans List.filter_sublist).map (·.record)
      · obtain ⟨hlog, hat⟩ := hof y (by simp)
        exact h.says_entry hids houtcomes hlog hat (Entry.decision_outcomes.2 (hy ▸ hset))
      · obtain ⟨hlog, hat⟩ := hof z (by simp)
        exact h.says_entry hids hreleased hlog hat (Entry.decision_released.2 (hz ▸ hrel))

end

namespace Replay

/-- Thread `2` removes its connection, with every write done and no secret registered. -/
def removing (cfg : Config Exn Cmd Cmd.Resp World) : Bool :=
  (match cfg.pool 2 with
    | .cmd (.net (.remove _)) _ => true
    | _ => false) &&
  decide (("att-1", 2) ∈ cfg.state.attempts ∧ cfg.state.lost = false ∧ cfg.state.audit.redaction = [])

theorem removing_spec {cfg : Config Exn Cmd Cmd.Resp World} (h : removing cfg = true) :
    (∃ c k, cfg.pool 2 = .cmd (.net (.remove c)) k) ∧ ("att-1", 2) ∈ cfg.state.attempts ∧
      cfg.state.lost = false ∧ cfg.state.audit.redaction = [] := by
  unfold removing at h
  rw [Bool.and_eq_true, decide_eq_true_eq] at h
  obtain ⟨hp, h⟩ := h
  refine ⟨?_, h⟩
  split at hp
  · rename_i c k hpool
    exact ⟨c, k, hpool⟩
  · cases hp

/-- `ssl.create_default_context` raises. -/
def noContext : (q : Query) → Except Exn q.Result
  | .upstreamContext => .error ⟨.os, "SSLError", ""⟩
  | q => fair q

end Replay

theorem attempt_settled_replay : ∃ cfg, Replay.boot.Reachable cfg ∧
    (∃ r ∈ cfg.state.log.map (·.record), r.saysOf "att-1" ["PERMIT_GRANTED"] = true) ∧
    SettledIn "att-1" (cfg.state.log.map (·.record)) := by
  obtain ⟨cfg, hr, hp⟩ := Replay.reachable Replay.fair Replay.accept (List.replicate 52 2)
    (p := fun cfg => Replay.removing cfg && !cfg.state.unguarded &&
      (cfg.state.log.map (·.record)).any (Record.saysOf "att-1" ["PERMIT_GRANTED"]))
    (by decide +kernel)
  rw [Bool.and_eq_true, Bool.and_eq_true, Bool.not_eq_true', List.any_eq_true] at hp
  obtain ⟨⟨hremoving, hguarded⟩, hpermit⟩ := hp
  obtain ⟨hend, ha, hlost, hsecrets⟩ := Replay.removing_spec hremoving
  refine ⟨cfg, hr, hpermit, attempt_settled hr hlost hguarded ?_ ?_ (by decide) (by decide)
    (Or.inr (Or.inr hend)) ha⟩
  · rw [hsecrets]
    exact fun _ _ => nofun
  · rw [hsecrets]
    exact fun _ _ => nofun

/-- Every write succeeds and the upstream context is not created: the intent stays without an
outcome. -/
theorem attempt_unsettled_noContext : ∃ cfg, Replay.boot.Reachable cfg ∧ cfg.state.lost = false ∧
    (∃ c k, cfg.pool 2 = .cmd (.net (.remove c)) k) ∧
    (∃ r ∈ cfg.state.log.map (·.record), r.saysOf "att-1" ["AUTH_COMMITTED"] = true) ∧
    ¬ SettledIn "att-1" (cfg.state.log.map (·.record)) := by
  obtain ⟨cfg, hr, hp⟩ := Replay.reachable Replay.noContext Replay.accept (List.replicate 29 2)
    (p := fun cfg => Replay.removing cfg &&
      (cfg.state.log.map (·.record)).any (Record.saysOf "att-1" ["AUTH_COMMITTED"]) &&
      ((cfg.state.log.map (·.record)).filter (Record.saysOf "att-1" outcomes)).isEmpty)
    (by decide +kernel)
  rw [Bool.and_eq_true, Bool.and_eq_true, List.any_eq_true, List.isEmpty_iff] at hp
  obtain ⟨⟨hremoving, hauth⟩, hnone⟩ := hp
  obtain ⟨hend, -, hlost, -⟩ := Replay.removing_spec hremoving
  refine ⟨cfg, hr, hlost, hend, hauth, fun hs => ?_⟩
  have honce := hs.once
  rw [hnone] at honce
  cases honce

end StrixPEP
