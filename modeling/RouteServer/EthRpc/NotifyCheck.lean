import RouteServer.Rust.Outcome
import Mathlib.Data.List.Basic

/-!
# Logs from several endpoints

Every endpoint reports the logs of every subscription, so each log is heard several times.
The endpoint that is the first to report a transaction owns it: its logs are passed on, and
those that other endpoints report for the transaction are dropped. Owners are kept in a
queue and forgotten after some time.

The queue is behind a lock, under which the clock is read too. The calls therefore follow
one another, whatever the order in which endpoints and subscriptions report. Within the
time for which an owner is kept, each log is passed on once, because its owner reports it
once.
-/

namespace RouteServer.EthRpc

open Rust

variable {TxId Url Subscription Content : Type}

/-- `Log`: the transaction that emitted it, and what else tells it from other logs. -/
structure Log (TxId Content : Type) where
  transactionHash : Option TxId
  content : Content
deriving DecidableEq

/-- The part of `EthRpc` that decides about logs: the owners of transactions with the time
of the first report, and what was sent to those who wait for a transaction. -/
structure Txns (TxId Url : Type) where
  txns : List (Nat × TxId × Url) := []
  notified : List TxId := []

/-- The first loop of `notify_check`: owners that are too old leave the front. A clock less than
ten minutes after its beginning panics, as in a debug build. -/
def expire (now : Nat) : List (Nat × TxId × Url) →
    Outcome Empty (List (Nat × TxId × Url))
  | [] => .ok []
  | f :: rest => do
    let cutoff ← Outcome.checkedSub now 600
    if f.1 > cutoff then .ok (f :: rest) else expire now rest

/-- On a clock that is past the time for which owners are kept, owners leave the queue
without a failure, and only those that are old enough. -/
theorem expire_ok {now : Nat} (past : 600 ≤ now) (txns : List (Nat × TxId × Url)) :
    ∃ old kept, expire now txns = .ok kept ∧ txns = old ++ kept ∧
      ∀ entry ∈ old, entry.1 + 600 ≤ now := by
  induction txns with
  | nil => exact ⟨[], [], rfl, rfl, by simp⟩
  | cons f rest inductionHypothesis =>
    rw [expire, Outcome.checkedSub_of_le past, Outcome.ok_bind]
    split
    · exact ⟨[], f :: rest, rfl, rfl, by simp⟩
    · next tooOld =>
      obtain ⟨old, kept, done, split, aged⟩ := inductionHypothesis
      refine ⟨f :: old, kept, done, by rw [split, List.cons_append], ?_⟩
      intro entry member
      rcases List.mem_cons.mp member with rfl | inside
      · omega
      · exact aged entry inside

variable [DecidableEq TxId] [DecidableEq Url]

/-- `notify_check`: whether a log is to be passed on. -/
def notifyCheck (now : Nat) (txid : TxId) (wsUrl : Url) (nf : Txns TxId Url) :
    Outcome Empty (Bool × Txns TxId Url) := do
  let dq ← expire now nf.txns
  match dq.find? (fun entry => entry.2.1 = txid) with
  | some (_, _, url) => .ok (url = wsUrl, { nf with txns := dq })
  | none => .ok (true,
      { nf with txns := dq ++ [(now, txid, wsUrl)], notified := nf.notified ++ [txid] })

/-- What a subscription hears from an endpoint, and the time at which it holds the lock. -/
structure Delivery (TxId Url Subscription Content : Type) where
  now : Nat
  url : Url
  subscription : Subscription
  log : Log TxId Content

/-- One turn of the loop of `handle_events`: whether `on_event` is called. -/
def handleEvent (delivery : Delivery TxId Url Subscription Content) (nf : Txns TxId Url) :
    Outcome Empty (Bool × Txns TxId Url) :=
  match delivery.log.transactionHash with
  | none => .ok (false, nf)
  | some txid => notifyCheck delivery.now txid delivery.url nf

/-- The deliveries that are passed on, and the state after them. -/
def handleEvents : List (Delivery TxId Url Subscription Content) → Txns TxId Url →
    Outcome Empty (List (Delivery TxId Url Subscription Content) × Txns TxId Url)
  | [], nf => .ok ([], nf)
  | delivery :: rest, nf => do
    let (passes, nf) ← handleEvent delivery nf
    let (passed, nf) ← handleEvents rest nf
    return (if passes then delivery :: passed else passed, nf)

/-- A delivery of a log of a transaction. -/
def Delivery.isOf (txid : TxId) (delivery : Delivery TxId Url Subscription Content) : Prop :=
  delivery.log.transactionHash = some txid

instance (txid : TxId) (delivery : Delivery TxId Url Subscription Content) :
    Decidable (delivery.isOf txid) := inferInstanceAs (Decidable (_ = _))

/-- How often a subscription hears a log from an endpoint. -/
def heardFrom [DecidableEq Subscription] [DecidableEq Content] (url : Url)
    (subscription : Subscription) (log : Log TxId Content)
    (deliveries : List (Delivery TxId Url Subscription Content)) : Nat :=
  deliveries.countP fun d => d.url = url ∧ d.subscription = subscription ∧ d.log = log

/-- How often a log of a subscription is among some deliveries. -/
def times [DecidableEq Subscription] [DecidableEq Content] (subscription : Subscription)
    (log : Log TxId Content) (deliveries : List (Delivery TxId Url Subscription Content)) : Nat :=
  deliveries.countP fun d => d.subscription = subscription ∧ d.log = log

/-- The first owner of a transaction in a queue. -/
def ownerIn (txid : TxId) (txns : List (Nat × TxId × Url)) : Option (Nat × TxId × Url) :=
  txns.find? fun entry => entry.2.1 = txid

/-- Only owners that are too old are forgotten. -/
theorem ownerIn_expire {now : Nat} (past : 600 ≤ now) (txns : List (Nat × TxId × Url)) :
    ∃ kept, expire now txns = .ok kept ∧
      (∀ txid, ownerIn txid txns = none → ownerIn txid kept = none) ∧
      ∀ txid owner, ownerIn txid txns = some owner → now < owner.1 + 600 →
        ownerIn txid kept = some owner := by
  obtain ⟨old, kept, done, queue, aged⟩ := expire_ok past txns
  refine ⟨kept, done, ?_, ?_⟩
  · intro txid missing
    rw [ownerIn, queue, List.find?_append, Option.or_eq_none_iff] at missing
    exact missing.2
  · intro txid owner found young
    rw [ownerIn, queue, List.find?_append] at found
    cases early : old.find? (fun entry => entry.2.1 = txid) with
    | none =>
      rw [early, Option.none_or] at found
      exact found
    | some entry =>
      rw [early, Option.some_or, Option.some.injEq] at found
      have tooOld := aged entry (List.mem_of_find?_eq_some early)
      rw [found] at tooOld
      omega

/-- What a call does about a transaction that has no owner, or one that is not too old.

Proof: the entries that are too old are taken out first; then by whether the transaction has an
owner among those that are left. -/
theorem notifyCheck_ok {now : Nat} (past : 600 ≤ now) (txid : TxId) (wsUrl : Url)
    (nf : Txns TxId Url) :
    ∃ passes next, notifyCheck now txid wsUrl nf = .ok (passes, next) ∧
      (ownerIn txid nf.txns = none →
        passes = true ∧ ownerIn txid next.txns = some (now, txid, wsUrl)) ∧
      (∀ owner, ownerIn txid nf.txns = some owner → now < owner.1 + 600 →
        passes = decide (owner.2.2 = wsUrl)) ∧
      (∀ other, other ≠ txid → ownerIn other nf.txns = none → ownerIn other next.txns = none) ∧
      ∀ other owner, ownerIn other nf.txns = some owner → now < owner.1 + 600 →
        ownerIn other next.txns = some owner := by
  obtain ⟨kept, done, lost, stays⟩ := ownerIn_expire past nf.txns
  rw [notifyCheck, done, Outcome.ok_bind]
  cases own : kept.find? (fun entry => entry.2.1 = txid) with
  | some entry =>
    refine ⟨_, _, rfl, ?_, ?_, fun other _ => lost other, stays⟩
    · intro missing
      cases own.symm.trans (lost txid missing)
    · intro owner found young
      cases own.symm.trans (stays txid owner found young)
      rfl
  | none =>
    refine ⟨_, _, rfl, ?_, ?_, ?_, ?_⟩
    · intro _
      refine ⟨rfl, ?_⟩
      rw [ownerIn, List.find?_append, own]
      simp
    · intro owner found young
      cases own.symm.trans (stays txid owner found young)
    · intro other different missing
      have before : kept.find? (fun entry => entry.2.1 = other) = none := lost other missing
      rw [ownerIn, List.find?_append, before]
      simp [Ne.symm different]
    · intro other owner found young
      have before : kept.find? (fun entry => entry.2.1 = other) = some owner :=
        stays other owner found young
      rw [ownerIn, List.find?_append, before]
      rfl

/-- The same of a turn of the loop, for a transaction. -/
theorem handleEvent_ok (txid : TxId) {delivery : Delivery TxId Url Subscription Content}
    (past : 600 ≤ delivery.now) (nf : Txns TxId Url) :
    ∃ passes next, handleEvent delivery nf = .ok (passes, next) ∧
      (delivery.isOf txid → ownerIn txid nf.txns = none →
        passes = true ∧ ownerIn txid next.txns = some (delivery.now, txid, delivery.url)) ∧
      (delivery.isOf txid → ∀ owner, ownerIn txid nf.txns = some owner →
        delivery.now < owner.1 + 600 → passes = decide (owner.2.2 = delivery.url)) ∧
      (¬delivery.isOf txid → ownerIn txid nf.txns = none → ownerIn txid next.txns = none) ∧
      ∀ owner, ownerIn txid nf.txns = some owner → delivery.now < owner.1 + 600 →
        ownerIn txid next.txns = some owner := by
  rw [handleEvent]
  simp only [Delivery.isOf]
  cases delivery.log.transactionHash with
  | none => exact ⟨false, nf, rfl, by simp, by simp, fun _ missing => missing, fun _ own _ => own⟩
  | some own =>
    obtain ⟨passes, next, done, first, later, others, stays⟩ :=
      notifyCheck_ok past own delivery.url nf
    refine ⟨passes, next, done, ?_, ?_, ?_, stays txid⟩
    · rintro ⟨⟩ missing
      exact first missing
    · rintro ⟨⟩ owner found young
      exact later owner found young
    · intro different missing
      exact others txid (fun same => different (congrArg some same.symm)) missing

/-- The deliveries of a transaction. -/
def deliveriesOf (txid : TxId) (deliveries : List (Delivery TxId Url Subscription Content)) :
    List (Delivery TxId Url Subscription Content) :=
  deliveries.filter fun d => d.isOf txid

/-- The deliveries of a transaction from an endpoint. -/
def deliveriesFrom (txid : TxId) (url : Url)
    (deliveries : List (Delivery TxId Url Subscription Content)) :
    List (Delivery TxId Url Subscription Content) :=
  (deliveriesOf txid deliveries).filter fun d => d.url = url

omit [DecidableEq Url] in
/-- A delivery of another transaction adds nothing, passed on or not. -/
theorem deliveriesOf_other {txid : TxId} {d : Delivery TxId Url Subscription Content}
    (other : ¬d.isOf txid) (passes : Bool)
    (passed : List (Delivery TxId Url Subscription Content)) :
    deliveriesOf txid (if passes then d :: passed else passed) = deliveriesOf txid passed := by
  cases passes with
  | true => exact List.filter_cons_of_neg (by simpa using other)
  | false => rfl

/-- As long as its owner is kept, of a transaction exactly the deliveries of the owner are
passed on. The owner is needed only while deliveries of the transaction are to come.

Proof: induction on the deliveries. A delivery of the transaction is passed on exactly if it
comes from its owner, who stays the owner while deliveries are young. -/
theorem handleEvents_owned (txid : TxId) (owner : Nat × TxId × Url)
    (deliveries : List (Delivery TxId Url Subscription Content))
    (clock : deliveries.Pairwise fun earlier later => earlier.now ≤ later.now)
    (past : ∀ d ∈ deliveries, 600 ≤ d.now)
    (young : ∀ d ∈ deliveries, d.isOf txid → d.now < owner.1 + 600) (nf : Txns TxId Url)
    (owned : (∃ d ∈ deliveries, d.isOf txid) → ownerIn txid nf.txns = some owner) :
    ∃ passed final, handleEvents deliveries nf = .ok (passed, final) ∧
      deliveriesOf txid passed = deliveriesFrom txid owner.2.2 deliveries := by
  induction deliveries generalizing nf with
  | nil => exact ⟨[], nf, rfl, rfl⟩
  | cons d rest inductionHypothesis =>
    obtain ⟨before, sorted⟩ := List.pairwise_cons.mp clock
    obtain ⟨dPast, restPast⟩ := List.forall_mem_cons.mp past
    obtain ⟨dYoung, restYoung⟩ := List.forall_mem_cons.mp young
    obtain ⟨passes, next, done, -, own, -, stays⟩ := handleEvent_ok txid dPast nf
    have stillOwned : (∃ d ∈ rest, d.isOf txid) → ownerIn txid next.txns = some owner := by
      rintro ⟨later, member, isOf⟩
      have found := owned ⟨later, List.mem_cons_of_mem _ member, isOf⟩
      exact stays owner found
        (Nat.lt_of_le_of_lt (before later member) (restYoung later member isOf))
    obtain ⟨passed, final, others, same⟩ :=
      inductionHypothesis sorted restPast restYoung next stillOwned
    refine ⟨if passes then d :: passed else passed, final, ?_, ?_⟩
    · rw [handleEvents, done]
      simp only [Outcome.ok_bind, others, Outcome.pure_def]
    · by_cases isOf : d.isOf txid
      · have decided := own isOf owner (owned ⟨d, List.mem_cons_self, isOf⟩) (dYoung isOf)
        rw [decided]
        by_cases mine : owner.2.2 = d.url
        · simp only [mine, decide_true, if_true]
          simp only [deliveriesFrom, deliveriesOf, isOf, decide_true, List.filter_cons_of_pos]
          rw [← mine]
          exact congrArg (d :: ·) same
        · simp only [mine, decide_false, Bool.false_eq_true, if_false]
          rw [same, deliveriesFrom, deliveriesFrom, deliveriesOf, deliveriesOf,
            List.filter_cons_of_pos (by simpa using isOf),
            List.filter_cons_of_neg (by simpa using Ne.symm mine)]
      · rw [deliveriesOf_other isOf, same, deliveriesFrom, deliveriesFrom, deliveriesOf,
          deliveriesOf, List.filter_cons_of_neg (by simpa using isOf)]

/-- Of a transaction that is new, exactly the deliveries of one endpoint are passed on, and
it delivers one.

Proof: induction on the deliveries. The first one of the transaction is passed on and makes its
endpoint the owner; from then on the lemma for owned transactions applies. -/
theorem handleEvents_new (txid : TxId)
    (deliveries : List (Delivery TxId Url Subscription Content))
    (clock : deliveries.Pairwise fun earlier later => earlier.now ≤ later.now)
    (past : ∀ d ∈ deliveries, 600 ≤ d.now)
    (window : ∀ d ∈ deliveries, ∀ d' ∈ deliveries, d.isOf txid → d'.isOf txid →
      d'.now < d.now + 600)
    (heard : ∃ d ∈ deliveries, d.isOf txid) (nf : Txns TxId Url)
    (new : ownerIn txid nf.txns = none) :
    ∃ passed final url, handleEvents deliveries nf = .ok (passed, final) ∧
      (∃ d ∈ deliveries, d.url = url) ∧
      deliveriesOf txid passed = deliveriesFrom txid url deliveries := by
  induction deliveries generalizing nf with
  | nil => simp at heard
  | cons d rest inductionHypothesis =>
    obtain ⟨before, sorted⟩ := List.pairwise_cons.mp clock
    obtain ⟨dPast, restPast⟩ := List.forall_mem_cons.mp past
    obtain ⟨passes, next, done, first, -, others, -⟩ := handleEvent_ok txid dPast nf
    by_cases isOf : d.isOf txid
    · obtain ⟨passed, final, rested, same⟩ :=
        handleEvents_owned txid (d.now, txid, d.url) rest sorted restPast
          (fun later member => window d List.mem_cons_self later (List.mem_cons_of_mem _ member)
            isOf) next (fun _ => (first isOf new).2)
      refine ⟨d :: passed, final, d.url, ?_, ⟨d, List.mem_cons_self, rfl⟩, ?_⟩
      · rw [handleEvents, done, (first isOf new).1]
        simp only [Outcome.ok_bind, rested, Outcome.pure_def, if_true]
      · simp only [deliveriesFrom, deliveriesOf, isOf, decide_true, List.filter_cons_of_pos]
        exact congrArg (d :: ·) same
    · obtain ⟨later, member, laterIsOf⟩ := heard
      have inRest : later ∈ rest := by
        rcases List.mem_cons.mp member with rfl | inside
        · exact absurd laterIsOf isOf
        · exact inside
      obtain ⟨passed, final, url, rested, ⟨from', inside, fromUrl⟩, same⟩ :=
        inductionHypothesis sorted restPast
          (fun d member d' member' => window d (List.mem_cons_of_mem _ member) d'
            (List.mem_cons_of_mem _ member'))
          ⟨later, inRest, laterIsOf⟩ next (others isOf new)
      refine ⟨if passes then d :: passed else passed, final, url, ?_,
        ⟨from', List.mem_cons_of_mem _ inside, fromUrl⟩, ?_⟩
      · rw [handleEvents, done]
        simp only [Outcome.ok_bind, rested, Outcome.pure_def]
      · rw [deliveriesOf_other isOf, same, deliveriesFrom, deliveriesFrom, deliveriesOf,
          deliveriesOf, List.filter_cons_of_neg (by simpa using isOf)]

/-- What is asked of the deliveries of a transaction: they come from known endpoints, each of
which delivers each log of each subscription once. -/
structure DeliversOnce [DecidableEq Subscription] [DecidableEq Content] (endpoints : List Url)
    (txid : TxId) (deliveries : List (Delivery TxId Url Subscription Content)) : Prop where
  known : ∀ d ∈ deliveries, d.url ∈ endpoints
  once : ∀ url ∈ endpoints, ∀ d ∈ deliveries, d.isOf txid →
    heardFrom url d.subscription d.log deliveries = 1

/-- What a log of a subscription is passed on as often as: it is heard from the one endpoint
whose deliveries are. -/
theorem times_eq_heardFrom [DecidableEq Subscription] [DecidableEq Content] {txid : TxId}
    {url : Url} {passed deliveries : List (Delivery TxId Url Subscription Content)}
    (same : deliveriesOf txid passed = deliveriesFrom txid url deliveries)
    {log : Log TxId Content} (isOf : log.transactionHash = some txid)
    (subscription : Subscription) :
    times subscription log passed = heardFrom url subscription log deliveries := by
  have ofLog : ∀ (deliveries : List (Delivery TxId Url Subscription Content))
      (test : Delivery TxId Url Subscription Content → Bool),
      (∀ d, test d = true → d.log = log) →
      (deliveriesOf txid deliveries).countP test = deliveries.countP test := by
    intro deliveries test tests
    rw [deliveriesOf, List.countP_filter]
    congr 1
    funext d
    cases passes : test d with
    | false => rfl
    | true =>
      have own : d.isOf txid := by rw [Delivery.isOf, tests d passes, isOf]
      simp [own]
  rw [times, ← ofLog passed _ (by simp), same, deliveriesFrom, List.countP_filter, ofLog,
    heardFrom]
  · congr 1
    funext d
    simp [Bool.and_comm]
  · intro d tests
    simp only [Bool.and_eq_true, decide_eq_true_eq] at tests
    exact tests.1.2

/-- In every interleaving of deliveries in which every endpoint delivers each log of a
transaction once and all of them arrive less than 600 seconds, on the clock of the calls,
after the first, each log is passed on to each subscription exactly once. The clock is not
set back and shows at least 600 seconds; other transactions may be delivered in any way.

Proof: the first delivery of a log that is heard of in time is passed on and remembered. While it
is remembered the others of the same log are not, and it is remembered for longer than the
deliveries take. -/
theorem passed_once [DecidableEq Subscription] [DecidableEq Content] (endpoints : List Url)
    (deliveries : List (Delivery TxId Url Subscription Content)) (txid : TxId)
    (clock : deliveries.Pairwise fun earlier later => earlier.now ≤ later.now)
    (past : ∀ d ∈ deliveries, 600 ≤ d.now)
    (delivers : DeliversOnce endpoints txid deliveries)
    (window : ∀ d ∈ deliveries, ∀ d' ∈ deliveries, d.isOf txid → d'.isOf txid →
      d'.now < d.now + 600) :
    ∀ d ∈ deliveries, d.isOf txid → ∃ passed final,
      handleEvents deliveries {} = .ok (passed, final) ∧ times d.subscription d.log passed = 1 := by
  intro d member isOf
  obtain ⟨passed, final, url, done, ⟨from', inside, fromUrl⟩, same⟩ :=
    handleEvents_new txid deliveries clock past window ⟨d, member, isOf⟩ {} rfl
  refine ⟨passed, final, done, ?_⟩
  rw [times_eq_heardFrom same isOf]
  apply delivers.once url _ d member isOf
  rw [← fromUrl]
  exact delivers.known from' inside

namespace Sample

/-- Two logs of the transaction 7, for two subscriptions. -/
def first : Log Nat Nat := ⟨some 7, 0⟩
def second : Log Nat Nat := ⟨some 7, 1⟩

/-- The endpoints 1 and 2 deliver both logs, in turns. -/
def deliveries (late : Nat) : List (Delivery Nat Nat Nat Nat) :=
  [⟨1000, 1, 0, first⟩, ⟨1001, 2, 1, second⟩, ⟨1001, 1, 1, second⟩, ⟨late, 2, 0, first⟩]

end Sample

/-- An event that two endpoints deliver within the time is passed once. -/
theorem passed_once_between_two_endpoints :
    ∃ passed final, handleEvents (Sample.deliveries 1599) {} = .ok (passed, final) ∧
      times 0 Sample.first passed = 1 :=
  passed_once [1, 2] (Sample.deliveries 1599) 7 (by decide) (by decide)
    ⟨by decide, by decide⟩ (by decide) ⟨1000, 1, 0, Sample.first⟩ List.mem_cons_self rfl

/-- A delivery exactly 600 seconds after the first finds the owner forgotten and is passed
on again. -/
theorem passed_twice_at_the_bound :
    ¬∀ (endpoints : List Nat) (deliveries : List (Delivery Nat Nat Nat Nat)) (txid : Nat),
      (deliveries.Pairwise fun earlier later => earlier.now ≤ later.now) →
      (∀ d ∈ deliveries, 600 ≤ d.now) →
      DeliversOnce endpoints txid deliveries →
      (∀ d ∈ deliveries, ∀ d' ∈ deliveries, d.isOf txid → d'.isOf txid →
        d'.now ≤ d.now + 600) →
      ∀ d ∈ deliveries, d.isOf txid → ∃ passed final,
        handleEvents deliveries {} = .ok (passed, final) ∧
          times d.subscription d.log passed = 1 := by
  intro always
  obtain ⟨passed, final, done, once⟩ := always [1, 2] (Sample.deliveries 1600) 7 (by decide)
    (by decide) ⟨by decide, by decide⟩ (by decide) ⟨1000, 1, 0, Sample.first⟩ List.mem_cons_self rfl
  have twice : (handleEvents (Sample.deliveries 1600) {}).toOption.map
      (fun result => times 0 Sample.first result.1) = some 2 := by decide
  rw [done] at twice
  cases once.symm.trans (Option.some.inj twice)

end RouteServer.EthRpc
