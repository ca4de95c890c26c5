import LintGate.Proofs.Process.Capture
import Mathlib.Data.List.Nodup
import Mathlib.Logic.Relation

/-!
# Readers and the collector

After a program has ended, two readers deliver what it printed, each when its source is closed, and
a collector receives what they deliver until it has both or its time is over. The steps of all three
are interleaved in any way. The text of what the collector received does not depend on the order.
-/

namespace LintGate

namespace Capture

open Text (Bytes)

/-- The readers, the channel that they deliver to, and the collector. -/
structure Drain where
  /-- The time since the collector began to wait. -/
  nowMs : Nat := 0
  /-- What the readers still have to deliver. -/
  reading : List Delivery
  /-- What was delivered and not received yet, the oldest first. -/
  channel : List Delivery := []
  /-- What the collector received, in the order of receipt. -/
  received : List Delivery := []
  waiting : Bool := true

namespace Drain

/-- What there is to deliver. -/
def parts (output errors : Bytes) : List Delivery :=
  [⟨.output, output⟩, ⟨.errors, errors⟩]

/-- The collector begins to wait. What was delivered before is delivered at once. -/
def start (output errors : Bytes) : Drain where
  reading := parts output errors

/-- The collector receives what is first in the channel. -/
def take (s : Drain) (d : Delivery) (later : List Delivery) : Drain :=
  { s with
    channel := later
    received := s.received ++ [d]
    waiting := s.received.length + 1 < awaited }

/-- What the collector makes of what it received. -/
def text (s : Drain) : String :=
  collect s.received

variable (graceMs : Nat)

/-- What may happen next. Time passes, readers deliver and the collector receives in any order. -/
inductive Step : Drain → Drain → Prop where
  | passes (s : Drain) : Step s { s with nowMs := s.nowMs + 1 }
  /-- A reader comes to the end of its source. -/
  | delivers {s : Drain} {before after : List Delivery} {d : Delivery} :
      s.reading = before ++ d :: after →
      Step s { s with reading := before ++ after, channel := s.channel ++ [d] }
  | receives {s : Drain} {d : Delivery} {later : List Delivery} :
      s.waiting = true → s.channel = d :: later → Step s (s.take d later)
  /-- Nothing is there, and the time is over or no reader is left. -/
  | givesUp {s : Drain} :
      s.waiting = true → s.channel = [] → graceMs ≤ s.nowMs ∨ s.reading = [] →
      Step s { s with waiting := false }

/-- Steps in any order. -/
def Reaches : Drain → Drain → Prop :=
  Relation.ReflTransGen (Step graceMs)

variable {graceMs : Nat} {output errors : Bytes} {s t : Drain} {d : Delivery}

/-! ## What every step keeps -/

/-- Nothing is lost or delivered twice, and the collector stops for a reason. -/
structure Sound (graceMs : Nat) (output errors : Bytes) (s : Drain) : Prop where
  accounted : (s.reading ++ s.channel ++ s.received).Perm (parts output errors)
  goesOn : s.waiting = true → s.received.length < awaited
  stops : s.waiting = false → s.received.length = awaited ∨ graceMs ≤ s.nowMs

theorem sound_start : Sound graceMs output errors (start output errors) where
  accounted := by simp [start]
  goesOn _ := by simp [start, awaited]
  stops ended := by simp [start] at ended

theorem Sound.length_eq (sound : Sound graceMs output errors s) :
    s.reading.length + s.channel.length + s.received.length = awaited := by
  have same := sound.accounted.length_eq
  rwa [List.length_append, List.length_append] at same

/-- One member of a list is moved to the end. -/
theorem perm_moved (before after moved : List Delivery) (d : Delivery) :
    (before ++ after ++ (moved ++ [d])).Perm (before ++ d :: after ++ moved) := by
  rw [List.append_assoc, List.append_assoc, ← List.append_assoc after]
  exact (List.perm_append_singleton d (after ++ moved)).append_left before

theorem Sound.step (sound : Sound graceMs output errors s) (stepped : Step graceMs s t) :
    Sound graceMs output errors t := by
  cases stepped with
  | passes =>
      refine ⟨sound.accounted, sound.goesOn, fun ended => ?_⟩
      exact (sound.stops ended).imp_right Nat.le_succ_of_le
  | @delivers before after d reads =>
      refine ⟨?_, sound.goesOn, sound.stops⟩
      refine List.Perm.trans ?_ sound.accounted
      rw [reads]
      exact (perm_moved before after s.channel d).append_right _
  | @receives d later _ next =>
      refine ⟨?_, ?_, ?_⟩
      · refine List.Perm.trans ?_ sound.accounted
        rw [next]
        exact perm_moved s.reading later s.received d
      · intro goes_on
        simpa [take] using goes_on
      · intro ended
        have counted := sound.length_eq
        rw [next, List.length_cons] at counted
        have full : awaited ≤ s.received.length + 1 := by simpa [take] using ended
        left
        rw [take, List.length_append, List.length_singleton]
        omega
  | givesUp waiting empty reason =>
      refine ⟨sound.accounted, fun goes_on => (nomatch goes_on), fun _ => ?_⟩
      -- without readers everything was received, and the collector would not wait
      rcases reason with late | nobody
      · exact .inr late
      · have counted := sound.length_eq
        have few := sound.goesOn waiting
        rw [empty, nobody, List.length_nil] at counted
        omega

theorem Reaches.sound (reached : Reaches graceMs (start output errors) s) :
    Sound graceMs output errors s := by
  induction reached with
  | refl => exact sound_start
  | tail _ stepped ih => exact ih.step stepped

/-- A delivery is heard when it was received, or will be: the collector does not stop while there is
something in the channel. -/
def Heard (d : Delivery) (s : Drain) : Prop :=
  d ∈ s.received ∨ s.waiting = true ∧ d ∈ s.channel

theorem Heard.step (heard : Heard d s) (sound : Sound graceMs output errors s)
    (stepped : Step graceMs s t) : Heard d t := by
  cases stepped with
  | passes => exact heard
  | delivers =>
      refine heard.imp_right ?_
      rintro ⟨waiting, sent⟩
      exact ⟨waiting, List.mem_append_left _ sent⟩
  | @receives first later _ next =>
      rcases heard with received | ⟨-, sent⟩
      · exact .inl (List.mem_append_left _ received)
      · rw [next, List.mem_cons] at sent
        rcases sent with rfl | sent
        · exact .inl (List.mem_append_right _ List.mem_cons_self)
        · -- there is one more to come, so this was not the last one that is waited for
          have counted := sound.length_eq
          have more : 0 < later.length := List.length_pos_of_mem sent
          rw [next, List.length_cons] at counted
          refine .inr ⟨decide_eq_true ?_, sent⟩
          omega
  | givesUp _ empty _ =>
      rcases heard with received | ⟨-, sent⟩
      · exact .inl received
      · rw [empty] at sent
        cases sent

theorem Heard.reaches (heard : Heard d s) (sound : Sound graceMs output errors s)
    (later : Reaches graceMs s t) : Heard d t := by
  have kept : Sound graceMs output errors t ∧ Heard d t := by
    induction later with
    | refl => exact ⟨sound, heard⟩
    | tail _ stepped ih => exact ⟨ih.1.step stepped, ih.2.step ih.1 stepped⟩
  exact kept.2

/-- What was delivered before the time is over is heard. -/
theorem Sound.heard (sound : Sound graceMs output errors s) (early : s.nowMs < graceMs)
    (part : d ∈ parts output errors) (delivered : d ∉ s.reading) : Heard d s := by
  have somewhere := sound.accounted.mem_iff.mpr part
  rw [List.mem_append, List.mem_append] at somewhere
  rcases somewhere with (reading | sent) | received
  · exact absurd reading delivered
  · refine .inr ⟨?_, sent⟩
    by_contra ended
    have more : 0 < s.channel.length := List.length_pos_of_mem sent
    have counted := sound.length_eq
    rcases sound.stops (Bool.eq_false_of_not_eq_true ended) with full | late
    · omega
    · omega
  · exact .inl received

/-- Once the collector has stopped it receives nothing more. -/
theorem Reaches.received_eq (later : Reaches graceMs s t) (ended : s.waiting = false) :
    t.received = s.received := by
  have kept : t.waiting = false ∧ t.received = s.received := by
    induction later with
    | refl => exact ⟨ended, rfl⟩
    | tail _ stepped ih =>
        obtain ⟨stopped, same⟩ := ih
        cases stepped with
        | passes => exact ⟨stopped, same⟩
        | delivers => exact ⟨stopped, same⟩
        | receives waiting => exact absurd (stopped.symm.trans waiting) Bool.false_ne_true
        | givesUp waiting => exact absurd (stopped.symm.trans waiting) Bool.false_ne_true
  exact kept.2

theorem nodup_parts : (parts output errors).Nodup := by
  simp [parts]

theorem Sound.nodup (sound : Sound graceMs output errors s) :
    (s.reading ++ s.channel ++ s.received).Nodup :=
  sound.accounted.nodup_iff.mpr nodup_parts

/-! ## Every run comes to an end -/

theorem reaches_passing (s : Drain) (ms : Nat) :
    Reaches graceMs s { s with nowMs := s.nowMs + ms } := by
  induction ms with
  | zero => exact .refl
  | succ ms ih => exact ih.tail (.passes _)

/-- The collector takes what is in the channel, waits until its time is over, and stops. -/
theorem exists_ended (graceMs : Nat) (s : Drain) : ∃ t, Reaches graceMs s t ∧ t.waiting = false ∧
    (s.channel = [] → t.received = s.received) := by
  generalize sent_eq : s.channel = sent
  induction sent generalizing s with
  | nil =>
      cases waiting : s.waiting with
      | false => exact ⟨s, .refl, waiting, fun _ => rfl⟩
      | true =>
          refine ⟨_, (reaches_passing s graceMs).tail (.givesUp waiting sent_eq (.inl ?_)), rfl,
            fun _ => rfl⟩
          exact Nat.le_add_left _ _
  | cons d sent ih =>
      cases waiting : s.waiting with
      | false => exact ⟨s, .refl, waiting, nofun⟩
      | true =>
          obtain ⟨t, reached, ended, -⟩ := ih (s.take d sent) rfl
          exact ⟨t, .head (.receives waiting sent_eq) reached, ended, nofun⟩

/-- From a state in which nothing is under way, some readers deliver in time, one after another. -/
theorem exists_receiving {early late : List Delivery} (empty : s.channel = [])
    (waiting : early ≠ [] → s.waiting = true) (room : s.received.length + early.length ≤ awaited)
    (split : s.reading.Perm (early ++ late)) :
    ∃ t, Reaches graceMs s t ∧ t.waiting = false ∧ t.received = s.received ++ early := by
  induction early generalizing s with
  | nil =>
      obtain ⟨t, reached, ended, same⟩ := exists_ended graceMs s
      exact ⟨t, reached, ended, by rw [same empty, List.append_nil]⟩
  | cons d early ih =>
      have goes_on := waiting (List.cons_ne_nil d early)
      obtain ⟨before, after, reads⟩ := List.append_of_mem (split.mem_iff.mpr List.mem_cons_self)
      have others : (before ++ after).Perm (early ++ late) := by
        rw [reads] at split
        exact (List.perm_middle.symm.trans split).cons_inv
      let sent : Drain := { s with reading := before ++ after, channel := [d] }
      have delivered : Step graceMs s sent := by
        have delivered : Step graceMs s _ := .delivers reads
        rwa [empty] at delivered
      let next : Drain := sent.take d []
      have taken : Reaches graceMs s next := .head delivered (.single (.receives goes_on rfl))
      rw [List.length_cons] at room
      have next_received : next.received = s.received ++ [d] := rfl
      have next_waiting : early ≠ [] → next.waiting = true := by
        intro more
        have some_more := List.length_pos_iff.mpr more
        have room_left : s.received.length + 1 < awaited := by omega
        exact decide_eq_true room_left
      have next_room : next.received.length + early.length ≤ awaited := by
        rw [next_received, List.length_append, List.length_singleton]
        omega
      obtain ⟨t, reached, ended, received⟩ := ih rfl next_waiting next_room others
      refine ⟨t, taken.trans reached, ended, ?_⟩
      rw [received, next_received, List.append_assoc, List.singleton_append]

/-- Any of the readers may be in time, in any order. -/
theorem exists_run (graceMs : Nat) {early late : List Delivery}
    (split : (parts output errors).Perm (early ++ late)) :
    ∃ t, Reaches graceMs (start output errors) t ∧ t.waiting = false ∧ t.received = early := by
  have room : early.length ≤ awaited := by
    have counted : awaited = (early ++ late).length := split.length_eq
    rw [List.length_append] at counted
    omega
  exact exists_receiving rfl (fun _ => rfl) (by simpa [start] using room) split

/-! ## The text -/

/-- The text is made of the parts that were received; the others count as empty. -/
theorem Sound.text_eq (sound : Sound graceMs output errors s) :
    s.text = combine (if ⟨.output, output⟩ ∈ s.received then output else [])
      (if ⟨.errors, errors⟩ ∈ s.received then errors else []) := by
  have distinct : s.received.Nodup := (List.nodup_append.mp sound.nodup).2.1
  have inside : ∀ d ∈ s.received, d = ⟨.output, output⟩ ∨ d = ⟨.errors, errors⟩ := by
    intro d member
    simpa [parts] using sound.accounted.mem_iff.mp (List.mem_append_right _ member)
  have few : s.received.length ≤ awaited := by
    have counted := sound.length_eq
    omega
  rw [text]
  generalize s.received = received at distinct inside few
  match received with
  | [] =>
      rw [if_neg List.not_mem_nil, if_neg List.not_mem_nil]
      rfl
  | [d] =>
      rcases inside d List.mem_cons_self with rfl | rfl
      · simp [collect, Kept.put, awaited]
      · simp [collect, Kept.put, awaited]
  | [d, e] =>
      have unequal : d ≠ e := by simpa using distinct
      rcases inside d (by simp) with rfl | rfl <;> rcases inside e (by simp) with rfl | rfl
      · exact absurd rfl unequal
      · simp [collect, Kept.put, awaited]
      · simp [collect, Kept.put, awaited]
      · exact absurd rfl unequal
  | d :: e :: f :: more => simp [awaited] at few

/-- However the readers and the collector take turns, the collector can come to its end. It has then
received what was delivered before its time was over, and nothing that was delivered after it had
stopped. Its text is that of the parts that it received, in whatever order: the decoded output and
then the decoded errors, both without the blanks at their ends, and on lines of their own if both
are there. -/
theorem text_ignores_timing (graceMs : Nat) (output errors : Bytes) :
    (∀ s, Reaches graceMs (start output errors) s → ∃ t, Reaches graceMs s t ∧ t.waiting = false) ∧
    (∀ s t d, Reaches graceMs (start output errors) s → Reaches graceMs s t → t.waiting = false →
      d ∈ parts output errors →
      (s.nowMs < graceMs → d ∉ s.reading → d ∈ t.received) ∧
      (s.waiting = false → d ∈ s.reading → d ∉ t.received)) ∧
    (∀ t, Reaches graceMs (start output errors) t → t.waiting = false →
      (⟨.output, output⟩ ∈ t.received → ⟨.errors, errors⟩ ∈ t.received →
        (t.text =
          if visible errors = "" then visible output
          else if visible output = "" then visible errors
          else visible output ++ "\n" ++ visible errors) ∧
        (t.text = "" ↔ Text.allBlank (Text.decodeLossy output) = true ∧
          Text.allBlank (Text.decodeLossy errors) = true)) ∧
      (⟨.output, output⟩ ∈ t.received → ⟨.errors, errors⟩ ∉ t.received →
        t.text = visible output) ∧
      (⟨.output, output⟩ ∉ t.received → ⟨.errors, errors⟩ ∈ t.received →
        t.text = visible errors) ∧
      (t.received = [] → t.text = "") ∧
      Text.EndsVisibly t.text) ∧
    ∀ contents, ∃ blanks, Text.decodeLossy contents = visible contents ++ blanks ∧
      Text.allBlank blanks = true ∧ Text.EndsVisibly (visible contents) := by
  have visible_nil : visible [] = "" := rfl
  refine ⟨?_, ?_, ?_, ?_⟩
  · intro s _
    obtain ⟨t, reached, ended, -⟩ := exists_ended graceMs s
    exact ⟨t, reached, ended⟩
  · intro s t d reached later ended part
    constructor
    · intro early delivered
      rcases (reached.sound.heard early part delivered).reaches reached.sound later with
        received | ⟨waiting, -⟩
      · exact received
      · exact absurd (ended.symm.trans waiting) Bool.false_ne_true
    · intro stopped reading
      rw [later.received_eq stopped]
      have distinct := reached.sound.nodup
      rw [List.append_assoc] at distinct
      intro received
      exact (List.nodup_append.mp distinct).2.2 d reading d (List.mem_append_right _ received) rfl
  · intro t reached _
    rw [reached.sound.text_eq]
    refine ⟨?_, ?_, ?_, ?_, endsVisibly_combine _ _⟩
    · intro out err
      rw [if_pos out, if_pos err]
      exact ⟨combine_eq output errors, combine_eq_empty_iff⟩
    · intro out err
      rw [if_pos out, if_neg err, combine_eq, if_pos visible_nil]
    · intro out err
      rw [if_neg out, if_pos err, combine_eq, if_pos visible_nil]
      split
      case isTrue nothing => rw [visible_nil, nothing]
      case isFalse => rfl
    · intro nothing
      rw [nothing, if_neg List.not_mem_nil, if_neg List.not_mem_nil, combine_eq, if_pos visible_nil,
        visible_nil]
  · intro contents
    obtain ⟨blanks, shape, blank⟩ := Text.exists_trimEnd_append (Text.decodeLossy contents)
    exact ⟨blanks, shape, blank, endsVisibly_visible contents⟩

/-- What the program of the next run prints: blanks at both ends, and an ill-formed byte. -/
def greeting : Bytes := Text.encode "out \n \n"

def complaint : Bytes := 0xFF :: Text.encode "err\t\n"

/-- The errors came first, and the output after a millisecond. -/
def errorsFirst : Drain where
  nowMs := 1
  reading := []
  received := [⟨.errors, complaint⟩, ⟨.output, greeting⟩]
  waiting := false

/-- The output was kept open. -/
def errorsAlone : Drain where
  nowMs := 500
  reading := [⟨.output, greeting⟩]
  received := [⟨.errors, complaint⟩]
  waiting := false

theorem text_ignores_timing_of_errors_first :
    Reaches 500 (start greeting complaint) errorsFirst ∧ errorsFirst.waiting = false ∧
      ⟨.errors, complaint⟩ ∈ errorsFirst.received ∧ errorsFirst.text = "out\n\uFFFDerr" ∧
      Reaches 500 (start greeting complaint) errorsAlone ∧ errorsAlone.waiting = false ∧
      ⟨.output, greeting⟩ ∉ errorsAlone.received ∧ errorsAlone.text = "\uFFFDerr" := by
  let errorsCame : Drain :=
    { reading := [⟨.output, greeting⟩], received := [⟨.errors, complaint⟩] }
  have came : Reaches 500 (start greeting complaint) errorsCame :=
    .head (@Step.delivers 500 _ [⟨.output, greeting⟩] [] _ rfl) (.single (.receives rfl rfl))
  have onward : Reaches 500 errorsCame errorsFirst :=
    ((Relation.ReflTransGen.single (.passes _)).tail
      (@Step.delivers 500 _ [] [] _ rfl)).tail (.receives rfl rfl)
  have alone : Reaches 500 (start greeting complaint) errorsAlone :=
    (came.trans (reaches_passing errorsCame 500)).tail (.givesUp rfl rfl (.inl (by decide)))
  have first : Reaches 500 (start greeting complaint) errorsFirst := came.trans onward
  have visible_greeting : visible greeting = "out" := by decide
  have visible_complaint : visible complaint = "\uFFFDerr" := by decide
  obtain ⟨-, timely, shown, -⟩ := text_ignores_timing 500 greeting complaint
  have heard : ⟨.errors, complaint⟩ ∈ errorsFirst.received :=
    (timely errorsCame _ _ came onward rfl (by decide)).1 (by decide) (by decide)
  have missed : ⟨.output, greeting⟩ ∉ errorsAlone.received :=
    (timely errorsAlone _ _ alone .refl rfl (by decide)).2 rfl (by decide)
  refine ⟨first, rfl, heard, ?_, alone, rfl, missed, ?_⟩
  · rw [((shown _ first rfl).1 (by decide) heard).1, visible_greeting, visible_complaint]
    decide
  · rw [(shown _ alone rfl).2.2.1 missed (by decide), visible_complaint]

end Drain

end Capture

/-- What was captured of a program that was started. -/
def Outcome.text? : Outcome → Option String
  | .exited _ output | .timedOut _ output => some output
  | .failedToStart _ => none

namespace Machine

open Capture (Drain)

/-- A machine tells of a program what a collector receives for which the readers take until their
channels are closed. -/
theorem outcome_is_drained (m : Machine) (start : Nat) (ended : Except Shell.Stop Unit)
    (status : Nat) :
    ∃ t, Drain.Reaches drainMs (Drain.start (m.contents 0) (m.contents 1)) t ∧ t.waiting = false ∧
      t.received = (m.delivery? .output 0).toList ++ (m.delivery? .errors 1).toList ∧
      (m.outcome start ended status).1.text? = some t.text := by
  generalize received_eq :
    (m.delivery? .output 0).toList ++ (m.delivery? .errors 1).toList = received
  have told : (m.outcome start ended status).1.text? = some (Capture.collect received) := by
    rw [← received_eq]
    cases ended with
    | ok => rfl
    | error stop => cases stop <;> rfl
  have split : ∃ late, (Drain.parts (m.contents 0) (m.contents 1)).Perm (received ++ late) := by
    rw [← received_eq, delivery?, delivery?]
    split <;> split
    · exact ⟨_, .refl _⟩
    · exact ⟨_, .swap ..⟩
    · exact ⟨_, .refl _⟩
    · exact ⟨[], .refl _⟩
  obtain ⟨late, split⟩ := split
  obtain ⟨t, reached, ended, same⟩ := Drain.exists_run drainMs split
  exact ⟨t, reached, ended, same, by rw [told, Drain.text, same]⟩

end Machine

end LintGate
