/-
Iams.Aio.DeliveryTheorems — what a gateway that fails makes of the requests
of `ZeebeCoroutine`.

The client tries again after an error that it takes for a temporary one,
whether or not the gateway has handled the request (`Delivery`).

`sendMessage_once`: with an id that nobody else uses, the gateway is left
with the message, and with one copy for each time to live that the call
takes. `False` says that there is such a message, which may be the one of an
earlier attempt.
`sendMessage_again` and `startProcess_instances`: without an id, and for
processes that are not refused, there is one for every request that the
gateway has handled.

No `sorry`, no `axiom`, no `native_decide`.
-/
import Iams.Aio.ZeebeClient

namespace Iams.Aio.ZeebeClient

open Iams.Lib Iams.Lib.Retry

variable {ν : Type}

/-! ## The gateway -/

namespace Gateway

variable {g : Gateway ν} {m : Message ν} {refuse : Process ν → Option Refusal}

theorem publish_live (hid : m.Identified) (h : g.Live m) :
    g.publish m = (g, .error .messageAlreadyExists) :=
  if_pos ⟨hid, h⟩

theorem publish_new (h : ¬(m.Identified ∧ g.Live m)) :
    g.publish m = ({ g with messages := g.messages ++ [(m, g.clock + m.ttl)] }, .ok ()) :=
  if_neg h

theorem copies_publish (h : ¬(m.Identified ∧ g.Live m)) :
    (g.publish m).1.copies m = g.copies m ++ [(m, g.clock + m.ttl)] := by
  rw [publish_new h, copies, List.filter_append]
  simp [copies]

theorem publish_clock (m : Message ν) : (g.publish m).1.clock = g.clock := by
  unfold publish
  split <;> rfl

theorem copies_publish_of_ne {m' : Message ν} (h : m'.key ≠ m.key) :
    (g.publish m').1.copies m = g.copies m := by
  unfold publish
  split
  · rfl
  · rw [copies, List.filter_append]
    simp [copies, h]

theorem runProcess_clock (p : Process ν) : (g.runProcess refuse p).1.clock = g.clock := by
  unfold runProcess
  split <;> rfl

theorem runProcess_messages (p : Process ν) :
    (g.runProcess refuse p).1.messages = g.messages := by
  unfold runProcess
  split <;> rfl

/-- Time does not run backwards. -/
theorem happen_clock (e : Event ν) : g.clock ≤ (g.happen refuse e).clock := by
  cases e with
  | pass milliseconds => exact Nat.le_add_right _ _
  | publish m => exact Nat.le_of_eq (publish_clock m).symm
  | runProcess p => exact Nat.le_of_eq (runProcess_clock p).symm
  | finish key => exact Nat.le_refl _

/-- Others do not publish messages like `m`. -/
def Event.Foreign (m : Message ν) : Event ν → Prop
  | .publish m' => m'.key ≠ m.key
  | _ => True

theorem copies_happen {e : Event ν} (h : e.Foreign m) :
    (g.happen refuse e).copies m = g.copies m := by
  cases e with
  | pass milliseconds => rfl
  | publish m' => exact copies_publish_of_ne h
  | runProcess p => exact congrArg (List.filter _) (runProcess_messages p)
  | finish key => rfl

end Gateway

open Gateway (Process Refusal Event)

variable {refuse : Process ν → Option Refusal} {round : Round ν} {g : Gateway ν} {m : Message ν}

/-- What the others keep one by one. -/
theorem arrive_keeps {I : Gateway ν → Prop}
    (h : ∀ e ∈ round.before, ∀ g, I g → I (g.happen refuse e)) (hg : I g) :
    I (round.arrive refuse g) := by
  unfold Round.arrive
  generalize round.before = events at h
  induction events generalizing g with
  | nil => exact hg
  | cons e rest ih =>
    exact ih (h e List.mem_cons_self g hg) fun e' he => h e' (List.mem_cons_of_mem _ he)

theorem arrive_clock : g.clock ≤ (round.arrive refuse g).clock :=
  arrive_keeps (I := fun g' => g.clock ≤ g'.clock)
    (fun e _ _ hg => Nat.le_trans hg (Gateway.happen_clock e)) (Nat.le_refl _)

theorem copies_arrive (h : ∀ e ∈ round.before, e.Foreign m) :
    (round.arrive refuse g).copies m = g.copies m :=
  arrive_keeps (I := fun g' => g'.copies m = g.copies m)
    (fun e he _ hg => (Gateway.copies_happen (h e he)).trans hg) rfl

/-! ## Messages -/

/-- `n` copies have been published since `t₀`, at least a time to live
apart from each other. -/
def Paced (t₀ n₀ : Nat) (m : Message ν) (g : Gateway ν) : Prop :=
  ∃ n, (g.copies m).length = n₀ + n ∧ t₀ ≤ g.clock ∧
    (n = 0 ∨ ∃ p ∈ g.copies m, t₀ + n * m.ttl ≤ p.2 ∧ p.2 ≤ g.clock + m.ttl)

variable {t₀ n₀ : Nat}

theorem Paced.later {g' : Gateway ν} (h : Paced t₀ n₀ m g) (hcopies : g'.copies m = g.copies m)
    (hclock : g.clock ≤ g'.clock) : Paced t₀ n₀ m g' := by
  obtain ⟨n, hlength, ht, hn⟩ := h
  refine ⟨n, hcopies ▸ hlength, Nat.le_trans ht hclock, hn.imp_right ?_⟩
  rintro ⟨p, hp, hge, hle⟩
  exact ⟨p, hcopies ▸ hp, hge, by omega⟩

/-- A copy is taken only when the one before it has run out. -/
theorem Paced.publish (h : Paced t₀ n₀ m g) (hid : m.Identified) :
    Paced t₀ n₀ m (g.publish m).1 := by
  by_cases hlive : g.Live m
  · rwa [Gateway.publish_live hid hlive]
  · obtain ⟨n, hlength, ht, hn⟩ := h
    have hnew := Gateway.copies_publish (fun h => hlive h.2 : ¬(m.Identified ∧ g.Live m))
    have hclock := Gateway.publish_clock (g := g) m
    refine ⟨n + 1, by rw [hnew, List.length_append, hlength]; rfl, by rwa [hclock], .inr
      ⟨(m, g.clock + m.ttl), by rw [hnew]; simp, ?_, Nat.le_of_eq (by rw [hclock])⟩⟩
    rcases hn with rfl | ⟨p, hp, hge, -⟩
    · simp only [Nat.zero_add, Nat.one_mul]
      omega
    · have hover : p.2 ≤ g.clock := Nat.le_of_not_lt fun hlt => hlive ⟨p, hp, hlt⟩
      rw [Nat.succ_mul]
      omega

/-! ## Processes -/

/-- The instances that a request for a process adds. -/
def Gateway.Process.starts (refuse : Process ν → Option Refusal) (p : Process ν) : Nat :=
  if refuse p = none then 1 else 0

/-- The instances that others start. -/
def Gateway.Event.starts (refuse : Process ν → Option Refusal) : Event ν → Nat
  | .runProcess p => Process.starts refuse p
  | _ => 0

theorem length_runProcess (p : Process ν) :
    (g.runProcess refuse p).1.instances.length = g.instances.length + Process.starts refuse p := by
  unfold Gateway.runProcess Process.starts
  split <;> simp [*]

theorem length_happen (e : Event ν) :
    (g.happen refuse e).instances.length = g.instances.length + Event.starts refuse e := by
  cases e with
  | pass milliseconds => rfl
  | publish m =>
    simp only [Gateway.happen, Gateway.publish]
    split <;> rfl
  | runProcess p => exact length_runProcess p
  | finish key => simp [Gateway.happen, Gateway.finish, Event.starts]

theorem length_arrive (round : Round ν) :
    (round.arrive refuse g).instances.length =
      g.instances.length + (round.before.map (Event.starts refuse)).sum := by
  unfold Round.arrive
  generalize round.before = events
  induction events generalizing g with
  | nil => rfl
  | cons e rest ih =>
    rw [List.foldl_cons, ih, length_happen, List.map_cons, List.sum_cons, Nat.add_assoc]

/-- What a round adds: the instances of others, and one if the gateway has
handled the request. -/
def Round.starts (refuse : Process ν → Option Refusal) (p : Process ν) (round : Round ν) : Nat :=
  (round.before.map (Event.starts refuse)).sum +
    if round.delivery.handled then Process.starts refuse p else 0

/-! ## The loops -/

namespace Client

variable {client : Client ν} {β γ : Type}
  {request : Gateway ν → Gateway ν × Except ZeebeError β}
  {handle : Except Raised β → Attempt Raised γ} {rounds : List (Round ν)}

/-- An attempt ends as its answer is handled. -/
theorem attempt_eq {g' : Gateway ν} {a : Attempt Raised γ}
    (h : (client.retry request handle).attempt round g = (g', a)) :
    g' = (if round.delivery.handled then (request (round.arrive client.refuse g)).1
      else round.arrive client.refuse g) ∧
    a = handle (round.delivery.outcome (request (round.arrive client.refuse g)).2) :=
  ⟨(congrArg Prod.fst h).symm, (congrArg Prod.snd h).symm⟩

theorem attempt_fst (round : Round ν) (g : Gateway ν) :
    ((client.retry request handle).attempt round g).1 =
      if round.delivery.handled then (request (round.arrive client.refuse g)).1
      else round.arrive client.refuse g := rfl

/-- What the other users and the request keep, a run keeps. -/
theorem retry_spec {I : Gateway ν → Prop} {Q : Gateway ν → Except Raised γ → Prop}
    (harrive : ∀ round ∈ rounds, ∀ g, I g → I (round.arrive client.refuse g))
    (hrequest : ∀ g, I g → I (request g).1)
    (hsleep : ∀ g wait, I g → I { g with clock := g.clock + 1000 * wait })
    (hdone : ∀ g (d : Delivery) r, I g → handle (d.outcome (request g).2) = .done r →
      Q (if d.handled then (request g).1 else g) r) (hg : I g) :
    I ((client.retry request handle).run 0 g rounds).state ∧
      ∀ r, ((client.retry request handle).run 0 g rounds).result = some r →
        Q ((client.retry request handle).run 0 g rounds).state r := by
  have hattempt : ∀ round ∈ rounds, ∀ g g' a, I g →
      (client.retry request handle).attempt round g = (g', a) →
        I g' ∧ ∀ r, a = .done r → Q g' r := by
    intro round hround g g' a hg h
    obtain ⟨rfl, rfl⟩ := attempt_eq h
    have hI := harrive round hround g hg
    refine ⟨?_, fun r hr => hdone _ _ r hI hr⟩
    split
    · exact hrequest _ hI
    · exact hI
  refine Loop.run_spec (fun n hn s t r hs h => ?_) (fun n hn s t hs h => ?_)
    (fun s wait hs => hsleep s wait hs) hg
  · exact ⟨(hattempt n hn s t _ hs h).1, (hattempt n hn s t _ hs h).2 r rfl⟩
  · exact (hattempt n hn s t _ hs h).1

/-- The client waits for 1, 2, … and at most 60 seconds. -/
theorem retry_waits :
    ((client.retry request handle).run 0 g rounds).waits =
      (List.range ((client.retry request handle).run 0 g rounds).waits.length).map
        fun i => min 60 (i + 1) := by
  rw [Loop.run_waits]
  simp only [List.length_map, List.length_range]
  exact List.map_congr_left fun i _ => iterate_backoff 60 (i + 1)

/-! ### Messages -/

section SendMessage

variable {name : String} {vars : Dict String ν} {messageId correlationKey : Option String}
  {ttl : Nat}

/-- `True` is said of a message that has just been taken, and `False` of one
that is there. -/
def Sent (n₀ : Nat) (m : Message ν) (g : Gateway ν) (r : Except Raised Bool) : Prop :=
  (r = .ok true → n₀ < (g.copies m).length ∧ (m, g.clock + m.ttl) ∈ g.messages) ∧
    (r = .ok false → g.Live m) ∧ ∀ e, r = .error e → e = .cancelled

theorem sent_of_done {d : Delivery} {r : Except Raised Bool} (hn₀ : n₀ ≤ (g.copies m).length)
    (h : sendMessageEnd (d.outcome (g.publish m).2) = .done r) :
    Sent n₀ m (if d.handled then (g.publish m).1 else g) r := by
  cases d with
  | answered =>
    by_cases hlive : m.Identified ∧ g.Live m
    · rw [Gateway.publish_live hlive.1 hlive.2] at h ⊢
      cases h
      exact ⟨by simp, fun _ => hlive.2, by simp⟩
    · rw [Gateway.publish_new hlive] at h
      cases h
      have hcopies := Gateway.copies_publish hlive
      refine ⟨fun _ => ⟨?_, ?_⟩, by simp, by simp⟩
      · rw [Delivery.handled, if_pos rfl, hcopies, List.length_append]
        exact Nat.lt_succ_of_le hn₀
      · rw [Delivery.handled, if_pos rfl, Gateway.publish_new hlive]
        simp
  | lost e => cases h
  | unanswered e => cases h
  | cancelled handled =>
    cases h
    exact ⟨by simp, by simp, by simp⟩

theorem paced_start (m : Message ν) (g : Gateway ν) : Paced g.clock (g.copies m).length m g :=
  ⟨0, rfl, Nat.le_refl _, .inl rfl⟩

/-- With an id, and if nobody else publishes such a message: one copy for
each time to live that the call takes, and none is lost. -/
theorem sendMessage_once (hid : (client.message name vars messageId ttl correlationKey).Identified)
    (hothers : ∀ round ∈ rounds, ∀ e ∈ round.before,
      e.Foreign (client.message name vars messageId ttl correlationKey)) (g : Gateway ν) :
    let m := client.message name vars messageId ttl correlationKey
    let p := (client.sendMessage name vars messageId ttl correlationKey).run 0 g rounds
    ∃ n, (p.state.copies m).length = (g.copies m).length + n ∧
      n * ttl ≤ (p.state.clock - g.clock) + ttl ∧
      (p.result = some (.ok true) → 0 < n ∧ (m, p.state.clock + ttl) ∈ p.state.messages) ∧
      (p.result = some (.ok false) → p.state.Live m) ∧
      ∀ e, p.result = some (.error e) → e = .cancelled := by
  intro m p
  have hrun : Paced g.clock (g.copies m).length m p.state ∧
      ∀ r, p.result = some r → Sent (g.copies m).length m p.state r :=
    retry_spec
      (fun round hround g hg => hg.later (copies_arrive (hothers round hround)) arrive_clock)
      (fun g hg => hg.publish hid) (fun g wait hg => hg.later rfl (Nat.le_add_right _ _))
      (fun g d r hg h => sent_of_done (by obtain ⟨n, hlength, -⟩ := hg; omega) h)
      (paced_start m g)
  obtain ⟨⟨n, hlength, hclock, hn⟩, hQ⟩ := hrun
  refine ⟨n, hlength, ?_, fun h => ?_, fun h => (hQ _ h).2.1 rfl, fun e h => (hQ _ h).2.2 e rfl⟩
  · rcases hn with rfl | ⟨q, -, hge, hle⟩
    · simp
    · have hq : g.clock + n * ttl ≤ p.state.clock + ttl := Nat.le_trans hge hle
      omega
  · obtain ⟨hlt, hmem⟩ := (hQ _ h).1 rfl
    exact ⟨by omega, hmem⟩

/-- Without an id: one copy for every request that the gateway has handled. -/
theorem sendMessage_again
    (hid : ¬(client.message name vars messageId ttl correlationKey).Identified)
    (hothers : ∀ round ∈ rounds, ∀ e ∈ round.before,
      e.Foreign (client.message name vars messageId ttl correlationKey)) (g : Gateway ν) :
    let m := client.message name vars messageId ttl correlationKey
    let p := (client.sendMessage name vars messageId ttl correlationKey).run 0 g rounds
    (p.state.copies m).length = (g.copies m).length +
      ((rounds.take p.attempts).map fun round => round.delivery.handled.toNat).sum := by
  intro m p
  refine Loop.run_sum (f := fun g : Gateway ν => (g.copies m).length)
    (fun round hround g => ?_) fun g wait => rfl
  have harrive := @copies_arrive _ client.refuse round g m (hothers round hround)
  have hnew := Gateway.copies_publish (g := round.arrive client.refuse g) fun h => hid h.1
  rw [sendMessage, attempt_fst]
  cases round.delivery.handled with
  | true =>
    rw [if_pos rfl, hnew, harrive]
    simp
  | false =>
    rw [if_neg Bool.false_ne_true, harrive]
    rfl

end SendMessage

/-! ### Processes -/

section StartProcess

variable {processId : String} {vars : Dict String ν} {version : Int}

/-- A key is that of an instance of the process, and `0` is none. -/
def Started (refuse : Process ν → Option Refusal) (p : Process ν) (g : Gateway ν)
    (r : Except Raised Nat) : Prop :=
  (∀ key, r = .ok key → (key = 0 ∧ refuse p ≠ none) ∨
    (0 < key ∧ refuse p = none ∧ ⟨key, p.id, p.version, p.vars, true⟩ ∈ g.instances)) ∧
    ∀ e, r = .error e → e = .cancelled

theorem started_of_done {p : Process ν} {d : Delivery} {r : Except Raised Nat}
    (hkey : 0 < g.nextKey) (h : startProcessEnd (d.outcome (g.runProcess refuse p).2) = .done r) :
    Started refuse p (if d.handled then (g.runProcess refuse p).1 else g) r := by
  cases d with
  | answered =>
    cases hrefuse : refuse p with
    | none =>
      simp only [Gateway.runProcess, hrefuse] at h ⊢
      cases h
      refine ⟨fun key hk => .inr ?_, by simp⟩
      cases hk
      exact ⟨hkey, hrefuse, by simp [Delivery.handled]⟩
    | some refusal =>
      simp only [Gateway.runProcess, hrefuse] at h ⊢
      have hr : r = .ok 0 := by cases refusal <;> cases h <;> rfl
      subst hr
      exact ⟨fun key hk => .inl ⟨by cases hk; rfl, by simp [hrefuse]⟩, by simp⟩
  | lost e => cases h
  | unanswered e => cases h
  | cancelled handled =>
    cases h
    exact ⟨by simp, by simp⟩

theorem nextKey_runProcess {p : Process ν} (hkey : 0 < g.nextKey) :
    0 < (g.runProcess refuse p).1.nextKey := by
  unfold Gateway.runProcess
  split
  · exact hkey
  · exact Nat.succ_pos _

theorem nextKey_happen (e : Event ν) (hkey : 0 < g.nextKey) :
    0 < (g.happen refuse e).nextKey := by
  cases e with
  | pass milliseconds => exact hkey
  | publish m =>
    simp only [Gateway.happen, Gateway.publish]
    split <;> exact hkey
  | runProcess p => exact nextKey_runProcess hkey
  | finish key => exact hkey

/-- One instance for every request that the gateway has handled, unless it
refuses the process, and the key of the last one. -/
theorem startProcess_instances (rounds : List (Round ν)) (g : Gateway ν) (hkey : 0 < g.nextKey) :
    let process := client.process processId vars version
    let p := (client.startProcess processId vars version).run 0 g rounds
    p.state.instances.length = g.instances.length +
        ((rounds.take p.attempts).map (Round.starts client.refuse process)).sum ∧
      ∀ r, p.result = some r → Started client.refuse process p.state r := by
  intro process p
  refine ⟨Loop.run_sum (f := fun g : Gateway ν => g.instances.length) (fun round hround g => ?_)
    fun g wait => rfl, ?_⟩
  · rw [startProcess, attempt_fst, Round.starts, ← Nat.add_assoc, ← length_arrive]
    split
    · exact length_runProcess process
    · rfl
  · have hrun : 0 < p.state.nextKey ∧
        ∀ r, p.result = some r → Started client.refuse process p.state r :=
      retry_spec (I := fun g => 0 < g.nextKey)
        (fun round _ g hg => arrive_keeps (I := fun g => 0 < g.nextKey)
          (fun e _ _ hg => nextKey_happen e hg) hg)
        (fun g hg => nextKey_runProcess hg) (fun g wait hg => hg)
        (fun g d r hg h => started_of_done hg h) hkey
    exact hrun.2

end StartProcess

/-! ### Cancelling -/

section CancelProcess

variable {instanceKey : Nat}

/-- The instance is not active. -/
def Ended (instanceKey : Nat) (g : Gateway ν) (r : Except Raised Unit) : Prop :=
  (r = .ok () → ∀ i ∈ g.instances, i.key = instanceKey → i.active = false) ∧
    ∀ e, r = .error e → e = .cancelled

theorem ended_of_done {d : Delivery} {r : Except Raised Unit}
    (h : cancelProcessEnd (d.outcome (g.cancelProcessInstance instanceKey).2) = .done r) :
    Ended instanceKey (if d.handled then (g.cancelProcessInstance instanceKey).1 else g) r := by
  cases d with
  | answered =>
    rw [Delivery.handled, if_pos rfl]
    by_cases hactive : ∃ i ∈ g.instances, i.key = instanceKey ∧ i.active
    · simp only [Gateway.cancelProcessInstance, if_pos hactive] at h ⊢
      cases h
      refine ⟨fun _ i hi hkey => ?_, by simp⟩
      obtain ⟨j, -, rfl⟩ := List.mem_map.mp hi
      split at hkey <;> simp_all
    · simp only [Gateway.cancelProcessInstance, if_neg hactive] at h ⊢
      cases h
      exact ⟨fun _ i hi hkey => by
        simpa using fun htrue : i.active = true => hactive ⟨i, hi, hkey, htrue⟩, by simp⟩
  | lost e => cases h
  | unanswered e => cases h
  | cancelled handled =>
    cases h
    exact ⟨by simp, by simp⟩

/-- When `cancel_process` returns, the instance is not active. -/
theorem cancelProcess_done (rounds : List (Round ν)) (g : Gateway ν) :
    let p := (client.cancelProcess instanceKey).run 0 g rounds
    ∀ r, p.result = some r → Ended instanceKey p.state r :=
  (retry_spec (I := fun _ => True) (fun _ _ _ _ => trivial) (fun _ _ => trivial)
    (fun _ _ _ => trivial) (fun _ _ _ _ h => ended_of_done h) trivial).2

end CancelProcess

end Client

/-! ## An answer that is lost -/

/-- A client whose processes are all deployed. -/
def deployed : Client String := ⟨⟨"", id⟩, fun _ => none, "agent:x"⟩

def idle : Gateway String := ⟨0, [], [], 1⟩

/-- The gateway fails after the first request, and answers the second. -/
def outage : List (Round String) :=
  [⟨[], .unanswered .gatewayUnavailable⟩, ⟨[], .answered⟩]

/-- The first copy has run out when the gateway answers, and another client
publishes a message of the same name. -/
def longOutage : List (Round String) :=
  [⟨[], .unanswered .gatewayUnavailable⟩,
    ⟨[.pass 60000, .publish ⟨"n", "agent:y", .empty, 1, some "1"⟩], .answered⟩]

theorem sendMessage_once_outage :
    let m := deployed.message "n" .empty (some "1") 60000 none
    let p := (deployed.sendMessage "n" .empty (some "1") 60000 none).run 0 idle
    ((p outage).result = some (.ok false) ∧ (p outage).state.Live m ∧
      ((p outage).state.copies m).length ≤ 1) ∧
    (p longOutage).result = some (.ok true) ∧
      (m, (p longOutage).state.clock + 60000) ∈ (p longOutage).state.messages ∧
      ((p longOutage).state.copies m).length ≤ 2 := by
  intro m p
  have hresult : (p outage).result = some (.ok false) := by decide
  have hresult' : (p longOutage).result = some (.ok true) := by decide
  have hclock : (p outage).state.clock = 1000 := by decide
  have hclock' : (p longOutage).state.clock = 61000 := by decide
  obtain ⟨n, hn, hpace, -, hlive, -⟩ := @Client.sendMessage_once _ deployed outage "n" .empty
    (some "1") none 60000 (by decide) (by simp [outage]) idle
  obtain ⟨n', hn', hpace', hmem, -⟩ := @Client.sendMessage_once _ deployed longOutage "n" .empty
    (some "1") none 60000 (by decide)
    (by simp [longOutage, Gateway.Event.Foreign, Message.key, Client.message, deployed]) idle
  refine ⟨⟨hresult, hlive hresult, ?_⟩, hresult', (hmem hresult').2, ?_⟩
  · change ((p outage).state.copies m).length = 0 + n at hn
    change n * 60000 ≤ ((p outage).state.clock - 0) + 60000 at hpace
    omega
  · change ((p longOutage).state.copies m).length = 0 + n' at hn'
    change n' * 60000 ≤ ((p longOutage).state.clock - 0) + 60000 at hpace'
    omega

/-- The gateway does not know the process. -/
def undeployed : Client String := { deployed with refuse := fun _ => some .notFound }

theorem startProcess_instances_outage :
    let process := deployed.process "p" .empty 1
    let p := (deployed.startProcess "p" .empty 1).run 0 idle outage
    let p' := (undeployed.startProcess "p" .empty 1).run 0 idle outage
    p.result = some (.ok 2) ∧ p.state.instances.length = 2 ∧
      Client.Started deployed.refuse process p.state (.ok 2) ∧
      p'.result = some (.ok 0) ∧ p'.state.instances.length = 0 := by
  intro process p p'
  have hresult : p.result = some (.ok 2) := by decide
  have h := @Client.startProcess_instances _ deployed "p" .empty 1 outage idle (by decide)
  have h' := @Client.startProcess_instances _ undeployed "p" .empty 1 outage idle (by decide)
  exact ⟨hresult, h.1.trans (by decide), h.2 _ hresult, by decide, h'.1.trans (by decide)⟩

end Iams.Aio.ZeebeClient
