import BusScript.Proofs.Engine.Compliance
import BusScript.Proofs.Engine.Failures
import BusScript.Proofs.Feeder.Pulses

/-!
# Acknowledged Words Are Acted On

A client that has had its word acknowledged forgets about it. It may, because a stream acknowledges
only while nothing is outstanding on the bus: no transaction can retire in that cycle and end the
run before the word is looked at. What the word asks for, or what is wrong with it, shows in the
report of the same cycle. A word with script bytes is then presented until all of them have been
taken, and nothing else is acknowledged before that, unless the run ends.

## Main results

* `Engine.Sound.step_of_wordFailures` — a word that is at fault ends the run at once, if nothing is
  outstanding.
* `Feeding.exists_presented` — what has not been taken of a word is presented.
* `Feeder.acts_on_acknowledged` — what comes of every word that a stream acknowledges.
-/

namespace BusScript

open Command (Word Payload)

namespace Engine

variable {e : Engine} {word : Word} {answer : Bus.Response} {error : RunError}

/-- While nothing is outstanding, the word is looked at as the engine is at the beginning of the
cycle. -/
theorem settled_eq_rest (hfree : e.bus.outstanding? = none) (answer : Bus.Response) :
    e.settled answer = e.rest := by
  have hrest : e.rest.bus.outstanding? = none := hfree
  rw [settled, settle_of_outstanding_eq_none hrest]

/-- **A word that is at fault ends the run at once**, or what would have been one, if nothing is
outstanding. -/
theorem Sound.step_of_wordFailures (h : e.Sound) (hfree : e.bus.outstanding? = none)
    (hflows : e.isDraining = false) (hword : e.wordFailures word = [error])
    (answer : Bus.Response) :
    (e.step word answer).1.status = .ended error.verdict ∧
      (e.step word answer).1.lastError = some error := by
  have hheeds := (going_rest hflows).heeds_accept word
  rw [wordFailures_congr (status_rest e), hword] at hheeds
  have hfailed : (e.rest.accept word).1.Failed error := hheeds
  have hstep : (e.step word answer).1 = (e.rest.accept word).1 := by
    have hparts : (e.step word answer).1 = ((e.settled answer).accept word).1.act := rfl
    rw [hparts, settled_eq_rest hfree, hfailed.act_eq]
  rw [hstep]
  refine ⟨?_, hfailed.lastError⟩
  rcases hfailed.stage with hs | hs
  · -- nothing is outstanding that the engine could wait for
    have hbusy := ((h.rest.accept word).fits_of hs).2
    rw [bus_accept] at hbusy
    have hnone : e.rest.bus.outstanding? = none := hfree
    rw [hnone] at hbusy
    cases hbusy
  · rw [status, hs]
    rfl

end Engine

namespace Feeder

namespace Feeding

variable {f : Feeding} {t n : Nat} {w : Word} {p : Payload} {last : Bool}

/-- How many bytes are taken in `n` cycles. -/
def consumed (f : Feeding) (start : Nat) : Nat → Nat
  | 0 => 0
  | n + 1 => f.consumed start n + (f.report (start + n)).consumed

/-- No end of a run is reported in `n` cycles. -/
def GoesOn (f : Feeding) (start n : Nat) : Prop :=
  ∀ k < n, (f.report (start + k)).status.isTerminal = false

/-- A failure is reported in a cycle. -/
structure Fails (f : Feeding) (t : Nat) (error : RunError) : Prop where
  status : (f.report t).status = .ended .errored
  lastError : (f.engine (t + 1)).lastError = some error

/-- The script bytes `p` of a word that is taken up in cycle `t` are taken in order, as long as no
run ends. -/
structure Delivers (f : Feeding) (t : Nat) (p : Payload) (last : Bool) : Prop where
  /-- As long as some are left, they are presented. -/
  presented : ∀ n, f.GoesOn t n → f.consumed t n < p.length →
    ∃ w, f.presented (t + n) = some w ∧ w.decode = .ok (.data (p.drop (f.consumed t n)) last)
  /-- No other word is taken up meanwhile. -/
  alone : ∀ n, 0 < n → f.GoesOn t n → f.consumed t n < p.length → f.taken (t + n) = none
  /-- Those that are taken in a cycle are the first that are left, and go to the end of the
  queue. -/
  ordered : ∀ n, f.GoesOn t n → f.consumed t n < p.length → (f.report (t + n)).consumed ≠ 0 →
    f.consumed t (n + 1) ≤ p.length ∧
      ((f.engine (t + n)).deciding ((f.presented (t + n)).getD .idle)
          (f.answer (t + n))).intake.queue =
        (f.engine (t + n)).intake.queue ++
          (p.bytes.drop (f.consumed t n)).take (f.report (t + n)).consumed

/-- What comes of a word that is taken up in a cycle. -/
structure ActsOn (f : Feeding) (t : Nat) (w : Word) : Prop where
  /-- Nothing is outstanding on the bus. -/
  free : (f.engine t).bus.outstanding? = none
  /-- The word is presented at once, and the engine is not ending a run when it looks at it. -/
  heard : f.presented t = some w ∧ ((f.engine t).settled (f.answer t)).Going
  /-- A start begins a new run, if there is none. -/
  starts : ∀ clear, w.decode = .ok (.start clear) → (f.engine t).status ≠ .running →
    (f.report t).status = .running ∧ (f.engine (t + 1)).intake.input [] = ⟨[], false⟩
  /-- Otherwise it is at fault. -/
  unexpected : ∀ clear, w.decode = .ok (.start clear) → (f.engine t).status = .running →
    f.Fails t .unexpectedStart
  /-- So is a word that cannot be read. -/
  undecodable : ∀ error, w.decode = .error error → f.Fails t (.undecodable error)
  /-- So are script bytes while there is no run. -/
  notStarted : ∀ p last, w.decode = .ok (.data p last) → (f.engine t).status ≠ .running →
    f.Fails t .notStarted
  /-- In a run they are taken. -/
  delivers : ∀ p last, w.decode = .ok (.data p last) → f.Delivers t p last

theorem GoesOn.of_succ (h : f.GoesOn t (n + 1)) : f.GoesOn t n :=
  fun k hk => h k (Nat.lt_succ_of_lt hk)

/-- The engine keeps the status that it has reported. -/
theorem status_report (f : Feeding) (t : Nat) :
    (f.report t).status = (f.engine (t + 1)).status := by
  rw [f.engine_succ]
  exact status_present _ _ _

/-- What is held after a cycle in which no run has ended. -/
theorem held_of_goesOn (h : (f.report t).status.isTerminal = false) :
    f.held (t + 1) = (f.presented t).bind (·.leftover? (f.report t).consumed) := by
  rw [f.held_succ]
  exact held_present h

/-- No word is taken up while one is held. -/
theorem taken_of_held (h : f.held t = some w) : f.taken t = none := by
  cases htaken : f.taken t with
  | none => rfl
  | some v =>
      have hnone := f.free t (by rw [htaken]; rfl)
      rw [hnone] at h
      cases h

/-- What is left of a word after the cycle in which it has been presented, while bytes are left to
take. -/
theorem exists_held (hpresented : f.presented t = some w) (hw : w.decode = .ok (.data p last))
    (hopen : (f.report t).status.isTerminal = false) (hleft : (f.report t).consumed < p.length) :
    ∃ w', f.held (t + 1) = some w' ∧
      w'.decode = .ok (.data (p.drop (f.report t).consumed) last) := by
  refine ⟨w.consume (f.report t).consumed, ?_, Word.decode_consume hw _⟩
  rw [held_of_goesOn hopen, hpresented, Option.bind_some, Word.leftover?_data hw,
    if_neg (Nat.not_le_of_lt hleft)]

/-- **What has not been taken of a word is presented**, and held before that: induction on the
cycles since it was taken up. -/
theorem exists_presented (htaken : f.taken t = some w) (hw : w.decode = .ok (.data p last))
    (hopen : f.GoesOn t n) (hleft : f.consumed t n < p.length) :
    ∃ w', f.presented (t + n) = some w' ∧
      w'.decode = .ok (.data (p.drop (f.consumed t n)) last) ∧
      (0 < n → f.held (t + n) = some w') := by
  induction n with
  | zero =>
      refine ⟨w, ?_, hw, fun hn => absurd hn (Nat.lt_irrefl 0)⟩
      rw [Nat.add_zero, presented, htaken, Option.some_or]
  | succ n ih =>
      rw [consumed] at hleft
      obtain ⟨v, hpresented, hv, -⟩ := ih hopen.of_succ (by omega)
      have hlength : (p.drop (f.consumed t n)).length = p.length - f.consumed t n :=
        List.length_drop
      obtain ⟨w', hheld, hw'⟩ := exists_held hpresented hv (hopen n (Nat.lt_succ_self n))
        (by rw [hlength]; omega)
      have hdrop : (p.drop (f.consumed t n)).drop (f.report (t + n)).consumed =
          p.drop (f.consumed t (n + 1)) := Payload.ext List.drop_drop
      rw [hdrop] at hw'
      refine ⟨w', ?_, hw', fun _ => hheld⟩
      rw [← Nat.add_assoc, presented, taken_of_held hheld, Option.none_or, hheld]

/-- **The script bytes of a word are taken in order**, and no other word is taken up before the last
of them, unless a run ends. -/
theorem delivers_of_taken (htaken : f.taken t = some w) (hw : w.decode = .ok (.data p last)) :
    f.Delivers t p last := by
  refine ⟨?_, ?_, ?_⟩
  · intro n hopen hleft
    obtain ⟨w', hpresented, hw', -⟩ := exists_presented htaken hw hopen hleft
    exact ⟨w', hpresented, hw'⟩
  · intro n hn hopen hleft
    obtain ⟨w', -, -, hheld⟩ := exists_presented htaken hw hopen hleft
    exact taken_of_held (hheld hn)
  · intro n hopen hleft htakes
    obtain ⟨w', hpresented, hw', -⟩ := exists_presented htaken hw hopen hleft
    obtain ⟨q, last', hq, hle, hqueue⟩ := (f.pulses.taken (t + n) htakes).appended
    rw [hpresented, Option.getD_some] at hq
    obtain ⟨rfl, rfl⟩ : p.drop (f.consumed t n) = q ∧ last = last' := by
      rw [hw'] at hq
      cases hq
      exact ⟨rfl, rfl⟩
    refine ⟨?_, hqueue⟩
    have hlength : (p.drop (f.consumed t n)).length = p.length - f.consumed t n :=
      List.length_drop
    rw [consumed]
    omega

/-- **What comes of a word** that is taken up while nothing is outstanding. -/
theorem acts_on_of_taken (htaken : f.taken t = some w)
    (hfree : (f.engine t).bus.outstanding? = none) (hflows : (f.engine t).isDraining = false) :
    f.ActsOn t w := by
  have hsound := f.sound_engine t
  have hpresented : f.presented t = some w := by rw [presented, htaken, Option.some_or]
  have hstep : f.engine (t + 1) = ((f.engine t).step w (f.answer t)).1 := by
    have hcycle := congrArg Prod.fst (f.engine_step t)
    rwa [hpresented] at hcycle
  have hfails : ∀ error, (f.engine t).wordFailures w = [error] → error.verdict = .errored →
      f.Fails t error := by
    intro error hword hverdict
    obtain ⟨hstatus, hlast⟩ := hsound.step_of_wordFailures hfree hflows hword (f.answer t)
    rw [← hstep] at hstatus hlast
    rw [hverdict] at hstatus
    exact ⟨(f.status_report t).trans hstatus, hlast⟩
  refine ⟨hfree, ⟨hpresented, ?_⟩, ?_, ?_, ?_, ?_, fun p last => delivers_of_taken htaken⟩
  · rw [Engine.settled_eq_rest hfree]
    exact Engine.going_rest hflows
  · intro clear hw hrest
    have hstatus := hsound.status_step hrest w (f.answer t)
    rw [← hstep, Status.ofWord_eq_running_iff.mpr ⟨clear, hw⟩] at hstatus
    refine ⟨(f.status_report t).trans hstatus, ?_⟩
    rw [hstep]
    exact (hsound.step_start hrest hw (f.answer t)).2
  · intro clear hw hrun
    refine hfails _ ?_ rfl
    simp only [Engine.wordFailures, hw, hrun, if_true]
  · intro error hw
    refine hfails _ ?_ rfl
    simp only [Engine.wordFailures, hw]
  · intro p last hw hrest
    refine hfails _ ?_ rfl
    simp only [Engine.wordFailures, hw, hrest, if_false]

end Feeding

/-- A stream acknowledges a word only while its engine can accept one. -/
theorem Stream.canAccept_of_acknowledged {s : Stream} {offer : Option Word}
    {answer : Bus.Response} (h : (s.step offer answer).2.1 = true) : s.engine.canAccept = true := by
  obtain ⟨-, hopen⟩ := Bool.and_eq_true_iff.mp h
  exact (Bool.and_eq_true_iff.mp hopen).2

/-- **An acknowledged word is acted on**: in every cycle of a stream, whatever the client has
offered before and however the target answers. -/
theorem acts_on_acknowledged {τ : Type} [Bus.Target τ] (options : Options) (target : τ)
    (offers : Nat → Option Word) {t : Nat} {w : Word}
    (h : (Stream.feeding options target offers).taken t = some w) :
    (Stream.feeding options target offers).ActsOn t w := by
  have hack : ((Stream.state options target offers t).1.cycle
      (Stream.state options target offers t).2 (offers t)).2.2.1 = true := by
    refine Decidable.byContradiction fun hack => ?_
    have hnone : (Stream.feeding options target offers).taken t = none := if_neg hack
    rw [hnone] at h
    cases h
  obtain ⟨hidle, hflows⟩ := Bool.and_eq_true_iff.mp (Stream.canAccept_of_acknowledged hack)
  rw [Bool.not_eq_eq_eq_not, Bool.not_true] at hflows
  exact Feeding.acts_on_of_taken h (Bus.Master.isIdle_eq_true_iff.mp hidle) hflows

/-- The stubborn client has its second word taken in two halves, and nothing acknowledged between
them; when its script is over, the word that it offers still is refused. -/
theorem acts_on_acknowledged_stubborn :
    Stream.stubborn.taken 1 = some ⟨0x001e1234567804c2⟩ ∧ Stream.stubborn.GoesOn 1 2 ∧
      Stream.stubborn.consumed 1 2 = 3 ∧ Stream.stubborn.taken 3 = none ∧
      Stream.stubborn.consumed 1 3 = 6 ∧
      Stream.stubborn.taken 11 = some ⟨0x0022000000000482⟩ ∧
      Stream.stubborn.Fails 11 .notStarted := by
  have hfirst : Stream.stubborn.taken 1 = some ⟨0x001e1234567804c2⟩ := rfl
  have hlate : Stream.stubborn.taken 11 = some ⟨0x0022000000000482⟩ := rfl
  have hopen : Stream.stubborn.GoesOn 1 2 := by
    unfold Feeding.GoesOn
    decide
  have hacts := acts_on_acknowledged default ({} : Bus.Memory) _ hfirst
  have hrefused := acts_on_acknowledged default ({} : Bus.Memory) _ hlate
  refine ⟨hfirst, hopen, rfl, ?_, rfl, hlate, ?_⟩
  · exact (hacts.delivers _ _ rfl).alone 2 (by decide) hopen (by decide)
  · exact hrefused.notStarted _ _ rfl (by decide)

end Feeder

end BusScript
