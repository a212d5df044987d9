import Mathlib.Algebra.Order.Floor.Div
import Treecast.Keepalive

/-!
# Streams with pings, item by item

A reader that waits for the next item of a stream with pings waits for its source and for the
instant at which a ping is due, and the source comes first where both are ready.  Each item that is
read, of whichever kind, puts the next ping off to one interval later.

Reading so until the end gives the messages of the source, each at its own time, and in each silence
the pings at the multiples of the interval that lie within it.

## Results

* `Keepalive.mem_pings_iff`, `Keepalive.pings_of_lt`: the pings of a silence.
* `Keepalive.woven_eq_next`: a stream with its pings, as its reader finds it.
* `Keepalive.carries_iff`: reading to the end.
* `Keepalive.map_woven`: what is read is what is sent.
* `Keepalive.interleave_exact`: nothing is lost, put off or sent out of order.
-/

set_option autoImplicit false

namespace Treecast.Keepalive

/-! ## Reading item by item -/

/-- Where an item of a stream with pings is from. -/
inductive Origin where
  | source
  | timer
  deriving DecidableEq, Repr

/-- An item and where it is from. -/
abbrev Sent := Origin × Timed Message

/-- What a reader comes to. -/
inductive Found where
  | message (m : Timed Message) (rest : List (Timed Message))
  | ping (time : Nat)
  | close (time : Nat)

/-- What a reader waits for: what the source has next, or its end, if it comes by the time at which
a ping is due, and the ping otherwise. -/
def next (k : Keepalive) (close : Nat) : List (Timed Message) → Found
  | [] => if close ≤ k.due then .close close else .ping k.due
  | m :: rest => if m.time ≤ k.due then .message m rest else .ping k.due

/-- What is read of a stream until it ends, and the time at which it does. -/
inductive Carries (close : Nat) :
    Keepalive → List (Timed Message) → List Sent → (stop : Nat) → Prop where
  | close {k messages time} (h : k.next close messages = .close time) :
      Carries close k messages [] time
  | message {k messages m rest sent stop} (h : k.next close messages = .message m rest)
      (hrest : Carries close (k.sent m.time) rest sent stop) :
      Carries close k messages ((.source, m) :: sent) stop
  | ping {k messages time sent stop} (h : k.next close messages = .ping time)
      (hrest : Carries close (k.sent time) messages sent stop) :
      Carries close k messages ((.timer, ⟨time, .ping⟩) :: sent) stop

/-- A source has its messages in the order of their times, from `time` on, and ends after them. -/
def Timely (close : Nat) : (time : Nat) → List (Timed Message) → Prop
  | time, [] => time ≤ close
  | time, m :: rest => time ≤ m.time ∧ Timely close m.time rest

/-- From the time of the last item on, a ping comes one interval later; what the source has, and the
end, comes no later than that. -/
def Paced (every close : Nat) : (last : Nat) → List Sent → Prop
  | last, [] => last ≤ close ∧ close ≤ last + every
  | last, (.source, m) :: rest =>
    (last ≤ m.time ∧ m.time ≤ last + every) ∧ Paced every close m.time rest
  | last, (.timer, p) :: rest => p = ⟨last + every, .ping⟩ ∧ Paced every close p.time rest

/-! ## The pings of a silence -/

/-- The pings of a silence from `last` to `stop`. -/
def pings (every last stop : Nat) : List (Timed Message) :=
  (List.range ((stop - last) ⌈/⌉ every - 1)).map fun n => ⟨last + (n + 1) * every, .ping⟩

variable {every close last stop : Nat}

/-- The pings are at the multiples of the interval that lie within the silence. -/
theorem mem_pings_iff (hevery : 0 < every) {p : Timed Message} :
    p ∈ pings every last stop ↔
      ∃ n, 0 < n ∧ last + n * every < stop ∧ p = ⟨last + n * every, .ping⟩ := by
  have hwithin : ∀ n, n < (stop - last) ⌈/⌉ every - 1 ↔ last + (n + 1) * every < stop := by
    intro n
    have hle := ceilDiv_le_iff_le_mul (b := stop - last) (c := n + 1) hevery
    rw [Nat.mul_comm every] at hle
    omega
  rw [pings, List.mem_map]
  constructor
  · rintro ⟨n, hn, rfl⟩
    exact ⟨n + 1, Nat.succ_pos n, (hwithin n).1 (List.mem_range.1 hn), rfl⟩
  · rintro ⟨n, hpos, hlt, rfl⟩
    obtain ⟨n, rfl⟩ := Nat.exists_eq_succ_of_ne_zero (Nat.pos_iff_ne_zero.1 hpos)
    exact ⟨n, List.mem_range.2 ((hwithin n).2 hlt), rfl⟩

theorem pings_of_le (hevery : 0 < every) (h : stop ≤ last + every) :
    pings every last stop = [] := by
  have hone : (stop - last) ⌈/⌉ every ≤ 1 := (ceilDiv_le_iff_le_mul hevery).2 (by omega)
  rw [pings, Nat.sub_eq_zero_of_le hone]
  rfl

/-- The first ping of a silence, and those after it. -/
theorem pings_of_lt (hevery : 0 < every) (h : last + every < stop) :
    pings every last stop = ⟨last + every, .ping⟩ :: pings every (last + every) stop := by
  have hcount : (stop - last) ⌈/⌉ every - 1 = ((stop - (last + every)) ⌈/⌉ every - 1) + 1 := by
    have hspan : stop - last + every - 1 = (stop - (last + every) + every - 1) + every := by omega
    have hpos : 0 < (stop - (last + every)) ⌈/⌉ every := by
      rw [Nat.ceilDiv_eq_add_pred_div]
      exact Nat.div_pos (by omega) hevery
    rw [Nat.ceilDiv_eq_add_pred_div, hspan, Nat.add_div_right _ hevery,
      ← Nat.ceilDiv_eq_add_pred_div]
    omega
  rw [pings, hcount, List.range_succ_eq_map, List.map_cons, List.map_map, pings]
  congr 2
  · omega
  · funext n
    simp only [Function.comp, Nat.succ_eq_add_one]
    congr 1
    rw [Nat.succ_mul (n + 1)]
    omega

/-! ## Streams and their readers -/

/-- The messages of a source with the pings of the silences between them. -/
def woven (every close : Nat) : (last : Nat) → List (Timed Message) → List Sent
  | last, [] => (pings every last close).map (Prod.mk .timer)
  | last, m :: rest =>
    (pings every last m.time).map (Prod.mk .timer) ++ (.source, m) :: woven every close m.time rest

/-- **A stream with its pings**, as its reader finds it. -/
theorem woven_eq_next (hevery : 0 < every) (close last : Nat) (messages : List (Timed Message)) :
    woven every close last messages =
      match (start every last).next close messages with
      | .message m rest => (.source, m) :: woven every close m.time rest
      | .ping time => (.timer, ⟨time, .ping⟩) :: woven every close time messages
      | .close _ => [] := by
  cases messages with
  | nil =>
    rw [next, start, woven]
    by_cases h : close ≤ last + every
    · rw [if_pos h, pings_of_le hevery h]
      rfl
    · rw [if_neg h, pings_of_lt hevery (by omega)]
      rfl
  | cons m rest =>
    rw [next, start, woven]
    by_cases h : m.time ≤ last + every
    · rw [if_pos h, pings_of_le hevery h]
      rfl
    · rw [if_neg h, pings_of_lt hevery (by omega)]
      rfl

section Found

variable {k : Keepalive} {messages rest : List (Timed Message)} {m : Timed Message} {time : Nat}

/-- A source that has ended has nothing left. -/
theorem next_eq_close (h : k.next close messages = .close time) :
    messages = [] ∧ time = close ∧ close ≤ k.due := by
  cases messages with
  | nil =>
    rw [next] at h
    split at h
    · rename_i hdue
      cases h
      exact ⟨rfl, rfl, hdue⟩
    · cases h
  | cons m rest =>
    rw [next] at h
    split at h <;> cases h

theorem next_eq_message (h : k.next close messages = .message m rest) :
    messages = m :: rest ∧ m.time ≤ k.due := by
  cases messages with
  | nil =>
    rw [next] at h
    split at h <;> cases h
  | cons m rest =>
    rw [next] at h
    split at h
    · rename_i hdue
      cases h
      exact ⟨rfl, hdue⟩
    · cases h

/-- A ping comes when it is due, before whatever the source has. -/
theorem next_eq_ping (h : k.next close messages = .ping time) :
    time = k.due ∧ ∀ last, Timely close last messages → Timely close time messages := by
  cases messages with
  | nil =>
    rw [next] at h
    split at h
    · cases h
    · rename_i hdue
      cases h
      exact ⟨rfl, fun _ _ => Nat.le_of_not_le hdue⟩
  | cons m rest =>
    rw [next] at h
    split at h
    · cases h
    · rename_i hdue
      cases h
      exact ⟨rfl, fun _ htimely => ⟨Nat.le_of_not_le hdue, htimely.2⟩⟩

end Found

/-- Whatever is read is the stream with its pings. -/
theorem eq_woven_of_carries (hevery : 0 < every) {k : Keepalive} {messages : List (Timed Message)}
    {sent : List Sent} (hk : k = start every last) (h : Carries close k messages sent stop) :
    sent = woven every close last messages ∧ stop = close := by
  induction h generalizing last with
  | close h =>
    subst hk
    rw [woven_eq_next hevery, h]
    exact ⟨rfl, (next_eq_close h).2.1⟩
  | message h _ ih =>
    subst hk
    rw [woven_eq_next hevery, h]
    obtain ⟨hsent, hstop⟩ := ih rfl
    exact ⟨congrArg _ hsent, hstop⟩
  | ping h _ ih =>
    subst hk
    rw [woven_eq_next hevery, h]
    obtain ⟨hsent, hstop⟩ := ih rfl
    exact ⟨congrArg _ hsent, hstop⟩

/-- As long as nothing comes before `time`, pings are read; then what comes at that time. -/
theorem carries_pings (hevery : 0 < every) {messages : List (Timed Message)} {sent : List Sent}
    {time : Nat}
    (hwait : ∀ last, last + every < time →
      (start every last).next close messages = .ping (last + every))
    (hcome : ∀ last, time ≤ last + every →
      Carries close (start every last) messages sent stop) :
    Carries close (start every last) messages
      ((pings every last time).map (Prod.mk .timer) ++ sent) stop := by
  -- each ping makes the rest of the silence shorter
  induction hspan : time - last using Nat.strongRecOn generalizing last with
  | _ span ih =>
    by_cases h : time ≤ last + every
    · rw [pings_of_le hevery h]
      exact hcome last h
    · rw [pings_of_lt hevery (by omega)]
      exact .ping (hwait last (by omega)) (ih (time - (last + every)) (by omega) rfl)

/-- A stream with its pings can be read to its end. -/
theorem carries_woven (hevery : 0 < every) (close last : Nat) (messages : List (Timed Message)) :
    Carries close (start every last) messages (woven every close last messages) close := by
  induction messages generalizing last with
  | nil =>
    rw [woven, ← List.append_nil (List.map _ _)]
    refine carries_pings hevery (fun last h => ?_) fun last h => .close ?_
    · exact if_neg (Nat.not_le.2 h)
    · exact if_pos h
  | cons m rest ih =>
    rw [woven]
    refine carries_pings hevery (fun last h => ?_) fun last h => .message ?_ (ih m.time)
    · exact if_neg (Nat.not_le.2 h)
    · exact if_pos h

/-- **Reading to the end** gives the stream with its pings, and ends when the source does. -/
theorem carries_iff (hevery : 0 < every) {messages : List (Timed Message)} {sent : List Sent} :
    Carries close (start every last) messages sent stop ↔
      sent = woven every close last messages ∧ stop = close := by
  constructor
  · exact eq_woven_of_carries hevery rfl
  · rintro ⟨rfl, rfl⟩
    exact carries_woven hevery _ last messages

/-- Whatever is read of a timely source comes in its time. -/
theorem paced_of_carries {k : Keepalive} {messages : List (Timed Message)} {sent : List Sent}
    (h : Carries close k messages sent stop) (hk : k = start every last)
    (htimely : Timely close last messages) : Paced every close last sent := by
  induction h generalizing last with
  | close h =>
    obtain ⟨rfl, -, hdue⟩ := next_eq_close h
    subst hk
    exact ⟨htimely, hdue⟩
  | message h _ ih =>
    obtain ⟨rfl, hdue⟩ := next_eq_message h
    subst hk
    exact ⟨⟨htimely.1, hdue⟩, ih rfl htimely.2⟩
  | ping h _ ih =>
    obtain ⟨rfl, hlater⟩ := next_eq_ping h
    subst hk
    exact ⟨rfl, ih rfl (hlater last htimely)⟩

/-! ## What is sent -/

/-- The pings before a time, if there are steps enough. -/
theorem pingsBefore_start (hevery : 0 < every) (steps : Nat) (hsteps : stop ≤ last + steps) :
    (pingsBefore steps (start every last) stop).1 = (pings every last stop).map (·.time) ∧
      (pingsBefore steps (start every last) stop).2.every = every := by
  induction steps generalizing last with
  | zero =>
    rw [pings_of_le hevery (by omega)]
    exact ⟨rfl, rfl⟩
  | succ steps ih =>
    rw [pingsBefore, show (start every last).due = last + every from rfl]
    by_cases h : last + every < stop
    · have hleft : stop ≤ last + every + steps := by omega
      obtain ⟨htimes, hinterval⟩ := ih hleft
      rw [if_pos h, pings_of_lt hevery h]
      exact ⟨congrArg (_ :: ·) htimes, hinterval⟩
    · rw [if_neg h, pings_of_le hevery (by omega)]
      exact ⟨rfl, rfl⟩

theorem silence_start (hevery : 0 < every) (last stop : Nat) :
    ((start every last).silence stop).1 = pings every last stop ∧
      ((start every last).silence stop).2.every = every := by
  have hfits : stop ≤ last + stop := Nat.le_add_left stop last
  obtain ⟨htimes, hinterval⟩ := pingsBefore_start hevery stop hfits
  refine ⟨?_, hinterval⟩
  show (pingsBefore stop (start every last) stop).1.map _ = _
  rw [htimes, pings, List.map_map, List.map_map]
  rfl

/-- **What is read is what is sent.** -/
theorem map_woven (hevery : 0 < every) (close last : Nat) (messages : List (Timed Message)) :
    (woven every close last messages).map Prod.snd =
      interleaveFrom (start every last) close messages := by
  have hitems : ∀ items : List (Timed Message),
      (items.map (Prod.mk Origin.timer)).map Prod.snd = items := by
    intro items
    rw [List.map_map]
    exact List.map_id _
  induction messages generalizing last with
  | nil => rw [woven, hitems, interleaveFrom, (silence_start hevery last close).1]
  | cons m rest ih =>
    obtain ⟨hpings, hinterval⟩ := silence_start hevery last m.time
    have hsent : ((start every last).silence m.time).2.sent m.time = start every m.time := by
      show Keepalive.mk _ (m.time + _) = _
      rw [hinterval]
      rfl
    rw [woven, List.map_append, List.map_cons, hitems, ih, interleaveFrom]
    dsimp only
    rw [hpings, hsent]

/-- Without its pings a stream is its source. -/
theorem filter_woven (every close last : Nat) (messages : List (Timed Message)) :
    ((woven every close last messages).filter (·.1 = .source)).map Prod.snd = messages := by
  have hnone : ∀ items : List (Timed Message),
      (items.map (Prod.mk Origin.timer)).filter (·.1 = .source) = [] := by
    intro items
    rw [List.filter_eq_nil_iff]
    simp
  induction messages generalizing last with
  | nil => rw [woven, hnone, List.map_nil]
  | cons m rest ih =>
    rw [woven, List.filter_append, hnone, List.nil_append, List.filter_cons_of_pos (by simp),
      List.map_cons, ih]

/-! ## Main result -/

/-- **Nothing is lost, put off or sent out of order.**  Whoever reads a stream with pings to its end
reads the messages of its source, in order and each at its own time, and the end at the time of the
source's end.  In every silence from one message to the next, from the start to the first one and
from the last one to the end, there are as many pings as whole intervals end within it, before what
comes then; each ping comes one interval after the item before it.  All this is what is sent. -/
theorem interleave_exact {every close : Nat} {messages : List (Timed Message)}
    (hevery : 0 < every) (htimely : Timely close 0 messages) :
    let stream := woven every close 0 messages
    (∀ sent stop, Carries close (start every 0) messages sent stop ↔
      sent = stream ∧ stop = close) ∧
    stream.map Prod.snd = interleave every close messages ∧
    (stream.filter (·.1 = .source)).map Prod.snd = messages ∧
    Paced every close 0 stream ∧
    ∀ last stop, (pings every last stop).length = (stop - last) ⌈/⌉ every - 1 ∧
      ∀ p, p ∈ pings every last stop ↔
        ∃ n, 0 < n ∧ last + n * every < stop ∧ p = ⟨last + n * every, .ping⟩ := by
  refine ⟨fun sent stop => carries_iff hevery, map_woven hevery close 0 messages,
    filter_woven every close 0 messages, ?_, fun last stop => ⟨?_, fun p => mem_pings_iff hevery⟩⟩
  · exact paced_of_carries (carries_woven hevery close 0 messages) rfl htimely
  · rw [pings, List.length_map, List.length_range]

/-- Messages that follow one another after delays are timely, if the end comes after the last. -/
theorem timely_schedule (rest time : Nat) (delays : List (Nat × Message)) :
    Timely ((schedule time delays).2 + rest) time (schedule time delays).1 := by
  induction delays generalizing time with
  | nil => exact Nat.le_add_right time rest
  | cons d delays ih => exact ⟨Nat.le_add_right time d.1, ih (time + d.1)⟩

/-- A message that is due together with a ping, a silence of two and a half intervals, and an end
that comes together with a ping. -/
theorem interleave_exact_ties :
    let source := schedule 0 [(10, .ping), (25, Sections.empty.message .all)]
    Carries (source.2 + 20) (start 10 0) source.1
      [(.source, ⟨10, .ping⟩), (.timer, ⟨20, .ping⟩), (.timer, ⟨30, .ping⟩),
        (.source, ⟨35, Sections.empty.message .all⟩), (.timer, ⟨45, .ping⟩)] 55 := by
  intro source
  have htimely : Timely (source.2 + 20) 0 source.1 := timely_schedule 20 0 _
  refine ((interleave_exact (by decide) htimely).1 _ _).2 ⟨?_, rfl⟩
  decide +kernel

end Treecast.Keepalive
