import NatsExplorer.History.Contents
import NatsExplorer.Subscription.Handoff

/-! The order in which a shard works. With one producer the hand-off is a queue
as long as a full batch never overtakes the one the flusher has taken out and
not sent yet; then the worker sees the deliveries in the order of arrival. -/
namespace NatsExplorer.Subscription
open Go History
namespace HandOff
variable {connID : Str} {mine : Str → Bool} {s s' : HandOff Unit}

/-- All deliveries on their way, the oldest first. -/
def line (s : HandOff Unit) : List Delivery :=
  s.processed ++ s.work ++ s.shard.queue.flatten ++ s.held none ++ s.held (some ()) ++
    s.shard.pend ++ (s.arriving ()).toList

/-- The producer does not send while the flusher has an older batch in hand. -/
def Orderly (s : HandOff Unit) (act : Act Unit) : Prop := act = .send (some ()) → s.held none = []

structure InLine (s : HandOff Unit) : Prop where
  sorted : s.line.Pairwise (fun d d' => d.seq < d'.seq)
  below {d} : d ∈ s.line → d.seq ≤ s.totalRecv
  /-- A producer with a batch to send has nothing else under way. -/
  waits : s.held (some ()) ≠ [] → s.shard.pend = []
  ready {d} : s.arriving () = some d → s.held (some ()) = []

theorem InLine.same (inLine : s.InLine) (line : s'.line = s.line)
    (totalRecv : s'.totalRecv = s.totalRecv)
    (waits : s'.held (some ()) ≠ [] → s'.shard.pend = [])
    (ready : ∀ {d}, s'.arriving () = some d → s'.held (some ()) = []) : s'.InLine where
  sorted := line ▸ inLine.sorted
  below member := totalRecv ▸ inLine.below (line ▸ member)
  waits := waits
  ready := ready

theorem step_inLine {act : Act Unit} (inLine : s.InLine) (orderly : s.Orderly act)
    (step : Step connID mine s act s') : s'.InLine := by
  cases step with
  | @receive p msg now free ready _ =>
    have line : line { s with
        totalRecv := s.totalRecv + 1
        arriving := Function.update s.arriving p (some ⟨msg, s.totalRecv + 1, now⟩) } =
          s.line ++ [⟨msg, s.totalRecv + 1, now⟩] := by
      simp only [HandOff.line, Function.update_self, Option.toList_some, free, Option.toList_none,
        List.append_nil]
    constructor
    · rw [line]
      apply List.pairwise_append.mpr
      refine ⟨inLine.sorted, List.pairwise_singleton _ _, fun d old e new => ?_⟩
      rw [List.mem_singleton.mp new]
      exact Nat.lt_succ_of_le (inLine.below old)
    · intro d member
      rw [line] at member
      rcases List.mem_append.mp member with old | new
      · exact (inLine.below old).trans (Nat.le_succ _)
      · rw [List.mem_singleton.mp new]
    · exact inLine.waits
    · exact fun _ => ready
  | elsewhere =>
    exact { inLine with below := fun member => (inLine.below member).trans (Nat.le_succ _) }
  | @enqueue p d coming =>
    cases p
    have empty : Function.update s.held (some ()) [] (some ()) = [] := Function.update_self ..
    have ready := inLine.ready coming
    unfold Shard.enqueue
    simp only
    split
    · refine inLine.same ?_ rfl ?_ ?_
      · simp only [line, coming, ready, Function.update_self, Option.toList_none,
          Option.toList_some, List.append_nil, List.append_assoc, ne_eq, reduceCtorEq,
          not_false_eq_true, Function.update_of_ne]
      · exact fun busy => absurd empty busy
      · exact fun _ => empty
    · refine inLine.same ?_ rfl ?_ ?_
      · simp only [line, coming, ready, Function.update_self, Option.toList_none,
          Option.toList_some, List.append_nil, List.append_assoc, ne_eq, reduceCtorEq,
          not_false_eq_true, Function.update_of_ne]
      · exact fun _ => rfl
      · intro d' coming'
        have free : Function.update s.arriving () none () = none := Function.update_self ..
        cases free.symm.trans coming'
  | flush free =>
    refine inLine.same ?_ rfl ?_ inLine.ready
    · simp only [line, free, Shard.flush, Function.update_self, ne_eq, reduceCtorEq,
        not_false_eq_true, Function.update_of_ne, List.append_nil]
      -- The producer has sent what it filled, or there is nothing to take.
      by_cases busy : s.held (some ()) = []
      · rw [busy, List.append_nil, List.append_nil]
      · rw [inLine.waits busy, List.append_nil, List.append_nil]
    · exact fun _ => rfl
  | @send a sh busy sent =>
    simp only [Shard.send, Option.ite_none_right_eq_some, Option.some.injEq] at sent
    obtain ⟨_, rfl⟩ := sent
    cases a with
    | none =>
      refine inLine.same ?_ rfl inLine.waits inLine.ready
      simp only [line, Function.update_self, ne_eq, reduceCtorEq, not_false_eq_true,
        Function.update_of_ne, List.flatten_append, List.flatten_cons, List.flatten_nil,
        List.append_nil, List.append_assoc]
    | some p =>
      cases p
      have empty : Function.update s.held (some ()) [] (some ()) = [] := Function.update_self ..
      have first := orderly rfl
      refine inLine.same ?_ rfl ?_ ?_
      · simp only [line, first, Function.update_self, ne_eq, reduceCtorEq, not_false_eq_true,
          Function.update_of_ne, List.flatten_append, List.flatten_cons, List.flatten_nil,
          List.append_nil, List.append_assoc]
      · exact fun busy => absurd empty busy
      · exact fun _ => empty
  | @take batch rest free first =>
    refine inLine.same ?_ rfl inLine.waits inLine.ready
    simp only [line, free, first, List.flatten_cons, List.append_nil, List.append_assoc]
  | @process d rest m busy done =>
    obtain ⟨pend, queue, totalRecv, _⟩ := HotPath.process_spec done
    refine inLine.same ?_ totalRecv ?_ inLine.ready
    · simp only [line, busy, pend, queue, List.append_assoc, List.cons_append,
        List.nil_append]
    · exact fun busy => pend.trans (inLine.waits busy)
  | store _ _ => exact ⟨inLine.sorted, inLine.below, inLine.waits, inLine.ready⟩

theorem Idle.inLine (idle : s.Idle) : s.InLine := by
  have empty : s.line = [] := by
    simp only [line, idle.processed, idle.work, idle.queue, idle.held, idle.pend, idle.arriving,
      List.flatten_nil, Option.toList_none, List.append_nil]
  constructor
  · exact empty ▸ List.Pairwise.nil
  · exact fun member => absurd (empty ▸ member) List.not_mem_nil
  · exact fun _ => idle.pend
  · exact fun _ => idle.held _

/-- The store and the subjects keep what was processed, in its order. -/
structure Remembers (connID : Str) (mine : Str → Bool) (limits : Nat × Nat × Nat)
    (s : HandOff Unit) : Prop where
  kept : s.history.Kept limits.1 limits.2.1 limits.2.2
  records {r} : r ∈ s.records → ∃ d ∈ s.processed, r.sequence = d.seq
  sorted {sh subject} : sh ∈ s.history.shards → mine subject = true →
    (sh.contents connID subject).Pairwise (fun r r' => r.sequence < r'.sequence)
  recorded {sh subject r} : sh ∈ s.history.shards → mine subject = true →
    r ∈ sh.contents connID subject → r ∈ s.records
  last {d} : d ∈ s.processed → ∃ st r, s.shard.subjects.lookup d.msg.subject = some st ∧
    st.last = some r ∧ r ∈ s.records ∧ r.subject = d.msg.subject ∧ d.seq ≤ r.sequence

variable {limits : Nat × Nat × Nat}

theorem process_remembers {d : Delivery} {rest : List Delivery} {m : HotPath}
    (remembers : s.Remembers connID mine limits) (some : 0 < limits.2.2) (inLine : s.InLine)
    (busy : s.work = d :: rest) (done : s.toHotPath.process connID d = .ok m) :
    Remembers connID mine limits { s with
      toHotPath := m
      work := rest
      processed := s.processed ++ [d] } := by
  obtain ⟨_, _, _, records, stored, st, subjects, last⟩ := HotPath.process_spec done
  generalize record : newRecord s.history.hash d.msg d.seq d.now = r at records stored last
  have subject : r.subject = d.msg.subject := by
    rw [← record]
    rfl
  have sequence : r.sequence = d.seq := by
    rw [← record]
    rfl
  have before {d'} (member : d' ∈ s.processed) : d'.seq < d.seq := by
    have sorted := inLine.sorted
    simp only [line, busy, List.append_assoc, List.cons_append] at sorted
    exact (List.pairwise_append.mp sorted).2.2 d' member d List.mem_cons_self
  have earlier {r'} (member : r' ∈ s.records) : r'.sequence < r.sequence := by
    obtain ⟨d', old, same⟩ := remembers.records member
    rw [same, sequence]
    exact before old
  have step : s.history.step (.append connID r) = .ok m.history := stored
  have contents := MemStore.step_contents remembers.kept some step
  have only {subject : Str} {new : List Record} (added : new.Sublist ((MemStore.Op.append connID r).brings connID subject)) :
      new.Sublist [r] := by
    apply added.trans
    simp only [MemStore.Op.brings]
    split
    · exact List.Sublist.refl _
    · exact List.nil_sublist _
  constructor
  · obtain ⟨history, same, kept⟩ := MemStore.append_spec remembers.kept some connID r
    rw [stored, Except.ok.injEq] at same
    exact same ▸ kept
  · intro r' member
    change r' ∈ m.records at member
    rw [records] at member
    rcases List.mem_append.mp member with old | new
    · obtain ⟨d', old, same⟩ := remembers.records old
      exact ⟨d', List.mem_append_left _ old, same⟩
    · rw [List.mem_singleton.mp new]
      exact ⟨d, List.mem_append_right _ List.mem_cons_self, sequence⟩
  · intro sh' subject member own
    obtain ⟨sh, old, both⟩ := contents sh' member
    obtain ⟨new, added, suffix⟩ := both connID subject
    apply List.Pairwise.sublist suffix.sublist
    apply List.pairwise_append.mpr
    refine ⟨remembers.sorted old own, List.Pairwise.sublist (only added) (List.pairwise_singleton _ _),
      fun r' held e new => ?_⟩
    rw [List.mem_singleton.mp ((only added).subset new)]
    exact earlier (remembers.recorded old own held)
  · intro sh' subject r' member own held
    obtain ⟨sh, old, both⟩ := contents sh' member
    obtain ⟨new, added, suffix⟩ := both connID subject
    change r' ∈ m.records
    rw [records]
    rcases List.mem_append.mp (suffix.subset held) with kept | fresh
    · exact List.mem_append_left _ (remembers.recorded old own kept)
    · exact List.mem_append_right _ ((only added).subset fresh)
  · intro d' member
    change ∃ st r', m.shard.subjects.lookup d'.msg.subject = Option.some st ∧
      st.last = Option.some r' ∧ r' ∈ m.records ∧ r'.subject = d'.msg.subject ∧ d'.seq ≤ r'.sequence
    rw [subjects, records]
    by_cases same : d'.msg.subject = d.msg.subject
    · refine ⟨st, r, ?_, last, List.mem_append_right _ List.mem_cons_self, subject.trans same.symm, ?_⟩
      · rw [same]
        exact AList.lookup_insert _
      · rw [sequence]
        rcases List.mem_append.mp member with old | new
        · exact (before old).le
        · rw [List.mem_singleton.mp new]
    · have old : d' ∈ s.processed := by
        rcases List.mem_append.mp member with old | new
        · exact old
        · exact absurd (congrArg (fun d => d.msg.subject) (List.mem_singleton.mp new)) same
      obtain ⟨st', r', found, newest, listed, about, least⟩ := remembers.last old
      exact ⟨st', r', (AList.lookup_insert_ne same).trans found, newest,
        List.mem_append_left _ listed, about, least⟩

theorem step_remembers {act : Act Unit} (remembers : s.Remembers connID mine limits)
    (some : 0 < limits.2.2) (inLine : s.InLine) (step : Step connID mine s act s') :
    s'.Remembers connID mine limits := by
  cases step with
  | receive _ _ _ =>
    exact ⟨remembers.kept, remembers.records, remembers.sorted, remembers.recorded, remembers.last⟩
  | elsewhere =>
    exact ⟨remembers.kept, remembers.records, remembers.sorted, remembers.recorded, remembers.last⟩
  | @enqueue p d _ =>
    refine ⟨remembers.kept, remembers.records, remembers.sorted, remembers.recorded, ?_⟩
    unfold Shard.enqueue
    simp only
    split
    · exact remembers.last
    · exact remembers.last
  | flush _ =>
    exact ⟨remembers.kept, remembers.records, remembers.sorted, remembers.recorded, remembers.last⟩
  | send _ sent =>
    simp only [Shard.send, Option.ite_none_right_eq_some, Option.some.injEq] at sent
    obtain ⟨_, rfl⟩ := sent
    exact ⟨remembers.kept, remembers.records, remembers.sorted, remembers.recorded, remembers.last⟩
  | take _ _ =>
    exact ⟨remembers.kept, remembers.records, remembers.sorted, remembers.recorded, remembers.last⟩
  | process busy done => exact process_remembers remembers some inLine busy done
  | @store op history others done =>
    have contents := MemStore.step_contents remembers.kept some done
    have nothing {subject} (own : mine subject = true) : op.brings connID subject = [] := by
      cases op with
      | append c r =>
        simp only [MemStore.Op.brings]
        split
        · rename_i same
          obtain ⟨rfl, rfl⟩ := same
          exact absurd own (by rw [others r rfl]; exact Bool.false_ne_true)
        · rfl
      | _ => rfl
    have fewer {sh' subject} (member : sh' ∈ history.shards) (own : mine subject = true) :
        ∃ sh ∈ s.history.shards, sh'.contents connID subject <:+ sh.contents connID subject := by
      obtain ⟨sh, old, both⟩ := contents sh' member
      obtain ⟨new, added, suffix⟩ := both connID subject
      rw [nothing own, List.sublist_nil] at added
      rw [added, List.append_nil] at suffix
      exact ⟨sh, old, suffix⟩
    constructor
    · obtain ⟨history', same, kept⟩ := MemStore.step_kept remembers.kept some op
      rw [done, Except.ok.injEq] at same
      exact same ▸ kept
    · exact remembers.records
    · intro sh' subject member own
      obtain ⟨sh, old, suffix⟩ := fewer member own
      exact List.Pairwise.sublist suffix.sublist (remembers.sorted old own)
    · intro sh' subject r member own held
      obtain ⟨sh, old, suffix⟩ := fewer member own
      exact remembers.recorded old own (suffix.subset held)
    · exact remembers.last

/-- The shard has worked in the order of arrival: what it recorded of a subject is
sorted, and the subject's last message is the newest of those processed. -/
structure InOrder (connID : Str) (mine : Str → Bool) (s : HandOff Unit) : Prop where
  processed : s.processed.Pairwise fun d d' => d.seq < d'.seq
  rings {sh subject} : sh ∈ s.history.shards → mine subject = true →
    (sh.contents connID subject).Pairwise fun r r' => r.sequence < r'.sequence
  last {d} : d ∈ s.processed → ∃ st r, s.shard.subjects.lookup d.msg.subject = some st ∧
    st.last = some r ∧ r ∈ s.records ∧ r.subject = d.msg.subject ∧ d.seq ≤ r.sequence

/-- What a producer brings in, from a counter on. -/
def burst (msg : Msg) (totalRecv n : Nat) : List Delivery :=
  (List.range n).map fun i => ⟨msg, totalRecv + i + 1, 0⟩

def arrive (msg : Msg) : List (Act Unit) := [.receive () msg 0, .enqueue ()]

def filled (s : HandOff Unit) (l : List Delivery) : HandOff Unit :=
  { s with
    shard := { s.shard with pend := s.shard.pend ++ l }
    totalRecv := s.totalRecv + l.length
    entered := s.entered ++ l }

theorem arrive_reaches {msg : Msg} (own : mine msg.subject = true)
    (free : s.arriving = fun _ => none) (ready : s.held (some ()) = []) :
    Transition.Reaches (Step connID mine) s (arrive msg) { s with
      shard := (s.shard.enqueue ⟨msg, s.totalRecv + 1, 0⟩).1
      totalRecv := s.totalRecv + 1
      held := Function.update s.held (some ()) (s.shard.enqueue ⟨msg, s.totalRecv + 1, 0⟩).2
      entered := s.entered ++ [⟨msg, s.totalRecv + 1, 0⟩] } := by
  have received : Step connID mine s (.receive () msg 0) _ :=
    .receive (congrFun free ()) ready own
  have coming : Function.update s.arriving () (some ⟨msg, s.totalRecv + 1, 0⟩) () =
      some ⟨msg, s.totalRecv + 1, 0⟩ := Function.update_self ..
  have entered := (Transition.Reaches.one received).next
    (.enqueue (p := ()) (d := ⟨msg, s.totalRecv + 1, 0⟩) coming)
  have idle : Function.update (Function.update s.arriving () (some ⟨msg, s.totalRecv + 1, 0⟩)) ()
      none = s.arriving := by
    rw [Function.update_idem, free]
    exact Function.update_eq_self () _
  rw [idle] at entered
  exact entered

/-- Messages that do not fill the batch collect in it. -/
theorem fill_reaches {msg : Msg} (own : mine msg.subject = true)
    (free : s.arriving = fun _ => none) (ready : s.held (some ()) = []) (n : Nat)
    (short : s.shard.pend.length + n < batchSize) :
    Transition.Reaches (Step connID mine) s (List.replicate n (arrive msg)).flatten
      (s.filled (burst msg s.totalRecv n)) := by
  induction n with
  | zero =>
    have same : s.filled (burst msg s.totalRecv 0) = s := by
      simp only [filled, burst, List.range_zero, List.map_nil, List.append_nil, List.length_nil,
        Nat.add_zero]
    rw [same]
    exact .refl s
  | succ n ih =>
    have before := ih (by omega)
    have last : Transition.Reaches (Step connID mine) (s.filled (burst msg s.totalRecv n))
      (arrive msg) _ := arrive_reaches own free ready
    rw [List.replicate_succ', List.flatten_append, List.flatten_singleton]
    apply before.append
    convert last using 1
    have length : (burst msg s.totalRecv n).length = n := by
      rw [burst, List.length_map, List.length_range]
    have more : burst msg s.totalRecv (n + 1) =
        burst msg s.totalRecv n ++ [Delivery.mk msg (s.totalRecv + n + 1) 0] := by
      simp only [burst, List.range_succ, List.map_append, List.map_cons, List.map_nil]
    have room : ((s.filled (burst msg s.totalRecv n)).shard.pend ++
        [Delivery.mk msg (s.totalRecv + n + 1) 0]).length < batchSize := by
      simp only [filled, List.length_append, length, List.length_singleton]
      omega
    have idle : Function.update s.held (some ()) [] = s.held := by
      rw [← ready]
      exact Function.update_eq_self _ _
    simp only [Shard.enqueue]
    simp only [filled, length] at room ⊢
    rw [if_pos room]
    simp only [idle, more, List.length_append, length, List.length_singleton, List.append_assoc,
      Nat.add_assoc]

/-- The worker gets through what it has received. -/
theorem drain_reaches (l : List Delivery) (busy : s.work = l)
    (kept : s.history.Kept limits.1 limits.2.1 limits.2.2) (some : 0 < limits.2.2) :
    ∃ s', Transition.Reaches (Step connID mine) s (List.replicate l.length .process) s' ∧
      s'.work = [] ∧ s'.processed = s.processed ++ l ∧ s'.shard.queue = s.shard.queue ∧
      s'.history.Kept limits.1 limits.2.1 limits.2.2 := by
  induction l generalizing s with
  | nil => exact ⟨s, .refl s, busy, (List.append_nil _).symm, rfl, kept⟩
  | cons d rest ih =>
    obtain ⟨history, stored, kept'⟩ := MemStore.append_spec kept some connID
      (newRecord s.history.hash d.msg d.seq d.now)
    obtain ⟨m, done⟩ : ∃ m, s.toHotPath.process connID d = .ok m := by
      simp only [HotPath.process, stored]
      exact ⟨_, rfl⟩
    obtain ⟨_, queue, _, _, same, _⟩ := HotPath.process_spec done
    rw [stored, Except.ok.injEq] at same
    obtain ⟨s', reached, idle, processed, queue', kept''⟩ := ih (s := { s with
      toHotPath := m
      work := rest
      processed := s.processed ++ [d] }) rfl (same ▸ kept')
    refine ⟨s', ?_, idle, ?_, queue'.trans queue, kept''⟩
    · have first : Step connID mine s .process _ := .process busy done
      exact (Transition.Reaches.one first).append reached
    · rw [processed, List.append_assoc, List.singleton_append]

theorem length_burst (msg : Msg) (totalRecv n : Nat) : (burst msg totalRecv n).length = n := by
  rw [burst, List.length_map, List.length_range]

/-- 128 messages leave the producer with a batch to send. -/
theorem burst_reaches {msg : Msg} (own : mine msg.subject = true)
    (free : s.arriving = fun _ => none) (ready : s.held (some ()) = []) (pend : s.shard.pend = []) :
    ∃ s', Transition.Reaches (Step connID mine) s (List.replicate 128 (arrive msg)).flatten s' ∧
      s'.held = Function.update s.held (some ()) (burst msg s.totalRecv 128) ∧
      s'.shard.queue = s.shard.queue ∧ s'.work = s.work ∧ s'.processed = s.processed ∧
      s'.history = s.history := by
  have short : s.shard.pend.length + 127 < batchSize := by
    rw [pend]
    decide
  have filling : Transition.Reaches (Step connID mine) s _ _ := fill_reaches own free ready 127 short
  have last : Transition.Reaches (Step connID mine) (s.filled (burst msg s.totalRecv 127))
    (arrive msg) _ := arrive_reaches own free ready
  have all : burst msg s.totalRecv 127 ++ [Delivery.mk msg (s.totalRecv + 127 + 1) 0] =
      burst msg s.totalRecv 128 := by
    simp only [burst, List.range_succ (n := 127), List.map_append, List.map_cons, List.map_nil]
  have full : (s.filled (burst msg s.totalRecv 127)).shard.enqueue
      ⟨msg, (s.filled (burst msg s.totalRecv 127)).totalRecv + 1, 0⟩ =
      ({ s.shard with pend := [] }, burst msg s.totalRecv 128) := by
    have long : ¬ 128 < batchSize := by decide
    simp only [filled, Shard.enqueue, pend, List.nil_append, length_burst, all, if_neg long]
  have acts : (List.replicate 128 (arrive msg)).flatten =
      (List.replicate 127 (arrive msg)).flatten ++ arrive msg := by
    rw [List.replicate_succ' (n := 127), List.flatten_append, List.flatten_singleton]
  rw [full] at last
  rw [acts]
  exact ⟨_, filling.append last, rfl, rfl, rfl, rfl, rfl⟩

theorem send_reaches {a : Option Unit} (busy : s.held a ≠ [])
    (room : s.shard.queue.length < shardQueue) :
    ∃ s', Transition.Reaches (Step connID mine) s [.send a] s' ∧
      s'.held = Function.update s.held a [] ∧ s'.shard.queue = s.shard.queue ++ [s.held a] ∧
      s'.work = s.work ∧ s'.processed = s.processed ∧ s'.history = s.history :=
  ⟨_, .one (.send busy (if_pos room)), rfl, rfl, rfl, rfl, rfl⟩

/-- The worker receives a batch and gets through it. -/
theorem round_reaches {batch : List Delivery} {rest : List (List Delivery)} (idle : s.work = [])
    (first : s.shard.queue = batch :: rest)
    (kept : s.history.Kept limits.1 limits.2.1 limits.2.2) (some : 0 < limits.2.2) :
    ∃ s', Transition.Reaches (Step connID mine) s
        ([.take] ++ List.replicate batch.length .process) s' ∧
      s'.work = [] ∧ s'.processed = s.processed ++ batch ∧ s'.shard.queue = rest ∧
      s'.history.Kept limits.1 limits.2.1 limits.2.2 := by
  have taken : Step connID mine s .take _ := .take idle first
  obtain ⟨s', drained, facts⟩ : ∃ s', Transition.Reaches (Step connID mine) _ _ s' ∧ _ :=
    drain_reaches (s := { s with shard := { s.shard with queue := rest }, work := batch })
      batch rfl kept some
  exact ⟨s', (Transition.Reaches.one taken).append drained, facts⟩

/-- The batch of a burst is sent, received and processed while the flusher holds
an older one. -/
def overtaking (msg : Msg) (older : Nat) : List (Act Unit) :=
  (List.replicate 128 (arrive msg)).flatten ++ [.send (some ())] ++ [.send none] ++
    ([.take] ++ List.replicate 128 .process) ++ ([.take] ++ List.replicate older .process)

theorem overtaking_reaches {start : HandOff Unit} {acts : List (Act Unit)} {msg : Msg}
    (reached : Transition.Reaches (Step connID mine) start acts s) (own : mine msg.subject = true)
    (free : s.arriving = fun _ => none) (ready : s.held (some ()) = []) (pend : s.shard.pend = [])
    (queue : s.shard.queue = []) (idle : s.work = []) (older : s.held none ≠ [])
    (kept : s.history.Kept limits.1 limits.2.1 limits.2.2) (shards : 0 < limits.2.2) :
    ∃ s', Transition.Reaches (Step connID mine) start
        (acts ++ overtaking msg (s.held none).length) s' ∧
      s'.processed = s.processed ++ burst msg s.totalRecv 128 ++ s.held none := by
  obtain ⟨s₁, burst₁, held₁, queue₁, work₁, processed₁, history₁⟩ :
    ∃ s', Transition.Reaches (Step connID mine) s _ s' ∧ _ := burst_reaches own free ready pend
  have own₁ : s₁.held (some ()) = burst msg s.totalRecv 128 := by
    rw [held₁, Function.update_self]
  have busy₁ : s₁.held (some ()) ≠ [] := by
    rw [own₁]
    exact List.ne_nil_of_length_eq_add_one (length_burst ..)
  rw [queue] at queue₁
  have room₁ : s₁.shard.queue.length < shardQueue := by
    rw [queue₁]
    decide
  obtain ⟨s₂, sent₂, held₂, queue₂, work₂, processed₂, history₂⟩ :
    ∃ s', Transition.Reaches (Step connID mine) s₁ _ s' ∧ _ :=
      send_reaches busy₁ room₁
  have older₂ : s₂.held none = s.held none := by
    have apart : (none : Option Unit) ≠ some () := nofun
    rw [held₂, Function.update_of_ne apart, held₁, Function.update_of_ne apart]
  rw [queue₁, own₁, List.nil_append] at queue₂
  have room₂ : s₂.shard.queue.length < shardQueue := by
    rw [queue₂, List.length_singleton]
    decide
  obtain ⟨s₃, sent₃, _, queue₃, work₃, processed₃, history₃⟩ :
    ∃ s', Transition.Reaches (Step connID mine) s₂ _ s' ∧ _ :=
      send_reaches (older₂ ▸ older) room₂
  rw [queue₂, older₂, List.singleton_append] at queue₃
  have idle₃ : s₃.work = [] := work₃.trans (work₂.trans (work₁.trans idle))
  have kept₃ : s₃.history.Kept limits.1 limits.2.1 limits.2.2 := by
    rw [history₃, history₂, history₁]
    exact kept
  obtain ⟨s₄, round₄, idle₄, processed₄, queue₄, kept₄⟩ :
    ∃ s', Transition.Reaches (Step connID mine) s₃ _ s' ∧ _ :=
      round_reaches idle₃ queue₃ kept₃ shards
  obtain ⟨s₅, round₅, _, processed₅, _⟩ :
    ∃ s', Transition.Reaches (Step connID mine) s₄ _ s' ∧ _ :=
      round_reaches idle₄ queue₄ kept₄ shards
  rw [length_burst] at round₄
  refine ⟨s₅, reached.append ((((burst₁.append sent₂).append sent₃).append round₄).append round₅), ?_⟩
  rw [processed₅, processed₄, processed₃, processed₂, processed₁]

def sampleMsg : Msg where
  subject := ['a']
  data := .text ['1']

def sampleStore : MemStore := .newMemStoreShards (fun _ => 0) 0 0 1

/-- The flusher takes the first message out; 128 others overtake it. -/
def overtakenRun : List (Act Unit) := arrive sampleMsg ++ [.flush] ++ overtaking sampleMsg 1

end HandOff
end NatsExplorer.Subscription
