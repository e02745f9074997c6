import BusScript.Proofs.Engine.Progress
import BusScript.Proofs.Feeder.Presentation

/-!
# What an Engine Waits For

An engine may wait for words only until its input has been closed, and it is closed by a word that
carries the last bytes of a script. So as long as such a word is still to come, an engine that waits
has something to wait for (`Engine.Expects`). Every cycle keeps it so: the word goes away only when
all of it has been taken, and that closes the input, or when the run has come to its end.

## Main results

* `Engine.Expects.step` — the word that closes the input is to come until the input is closed.
* `Engine.Live.present` — a cycle of a feeder ends the run, makes progress or stalls, and a run
  that goes on is still live.
-/

namespace BusScript

namespace Engine

/-- A word that closes the input is to come, as long as it is open. -/
def Expects (e : Engine) (words : List Command.Word) : Prop :=
  e.Awaits → ∃ w ∈ words, w.isDataLast = true

variable {e e' : Engine} {words : List Command.Word}

theorem Awaits.of_intake {i : Intake} (h : ({ e with intake := i } : Engine).Awaits)
    (hopen : e.intake.closed = false) : e.Awaits := by
  rw [Awaits] at h ⊢
  cases hs : e.stage with
  | idle => trivial
  | header | executing a => exact hopen
  | completing | draining verdict | ended verdict =>
      simp only [hs] at h

/-! ### No part of a cycle opens the input -/

/-- The effect of a retired transaction. -/
theorem awaits_of_retire {t : Bus.Transaction} {outcome : Bus.Outcome}
    (h : (e.retire t outcome).1.Awaits) : e.Awaits := by
  have htransfer : ∀ a x, ({ e with stage := afterTransfer a x } : Engine).Awaits →
      e.intake.closed = false := by
    intro a x hawaits
    by_cases hr : x.remaining = 0
    · simpa only [Awaits, afterTransfer, hr, if_true] using hawaits
    · simpa only [Awaits, afterTransfer, hr, if_false] using hawaits
  unfold retire at h
  split at h
  · exact h.elim
  · exact absurd h (not_awaits_finish _ _ _)
  · next hs => exact (awaits_executing hs).mpr (htransfer _ _ h)
  · next hs => exact (awaits_executing hs).mpr (htransfer _ _ h)
  · next hs =>
    rw [awaits_executing hs]
    split at h
    · exact h
    · split at h
      · exact absurd h (not_awaits_finish _ _ _)
      · exact h
  · exact h

/-- The bus moves on. -/
theorem awaits_of_settle {answer : Bus.Response} (h : (e.settle answer).1.Awaits) : e.Awaits := by
  rcases e.settle_cases answer with ⟨bus, hx, -⟩ | ⟨t, outcome, -, -, hx⟩
  · rw [hx] at h
    exact h
  · rw [hx] at h
    exact awaits_of_retire (e := e.released) h

/-- A header is read. -/
theorem awaits_of_readHeader (hs : e.stage = .header) (h : e.readHeader.Awaits) : e.Awaits := by
  rw [awaits_header hs]
  rcases e.readHeader_cases with ⟨-, -, hx⟩ | ⟨opcode, operand, rest, -, hx⟩ | ⟨b, -, -, hx⟩ |
    ⟨hopen, -, -⟩
  · rw [hx] at h
    exact h.elim
  · rcases hx with ⟨error, -, hx⟩ | ⟨target, value, -, hx⟩ | ⟨header, a, -, -, hx⟩
    · rw [hx] at h
      exact absurd h (not_awaits_finish _ _ _)
    · rw [hx] at h
      exact (awaits_header (e := { e with
        intake := { e.intake with queue := rest }
        registers := e.registers.set target value }) hs).mp h
    · rw [hx] at h
      exact h
  · rw [hx] at h
    exact absurd h (not_awaits_finish _ _ _)
  · exact hopen

/-- An operation moves on. -/
theorem awaits_of_execute {a : Activity} (hs : e.stage = .executing a)
    (h : (e.execute a).Awaits) : e.Awaits := by
  rcases e.execute_cases a with ⟨-, -, hx⟩ | ⟨hx, -⟩ | ⟨-, hx⟩
  · rw [hx] at h
    exact absurd h (not_awaits_finish _ _ _)
  · rw [hx] at h
    exact h
  · rw [awaits_executing hs]
    rcases hx with ⟨t, -, -, hx⟩ | ⟨t, -, -, -, hx⟩ | ⟨p, -, -, hx⟩ | ⟨p, -, -, hx⟩ <;>
      rw [hx] at h <;> exact h

/-- The decision of a cycle. -/
theorem awaits_of_act (h : e.act.Awaits) : e.Awaits := by
  rw [Engine.act] at h
  cases hs : e.stage with
  | header =>
      rw [hs] at h
      exact awaits_of_readHeader hs h
  | executing a =>
      rw [hs] at h
      exact awaits_of_execute hs h
  | completing =>
      rw [hs] at h
      exact absurd h (not_awaits_finish _ _ _)
  | idle | draining verdict | ended verdict =>
      rw [hs] at h
      exact h

/-! ### The closing word stays to come -/

/-- The presented word is acted on. -/
theorem Expects.accept {held : Option Command.Word} {n : Nat}
    (h : e.Expects (held.toList ++ words)) (hx : e.accept (held.getD .idle) = (e', n)) :
    e'.Expects ((held.bind (·.leftover? n)).toList ++ words) := by
  cases held with
  | none =>
      rw [Option.getD_none, accept_idle Command.Word.decode_idle] at hx
      cases hx
      exact h
  | some w =>
      rw [Option.getD_some] at hx
      rw [Option.bind_some]
      intro hawaits
      -- a word of another kind is not the one that is expected
      have hother : ∀ c, w.decode = .ok c → (c.opcode == .dataLast) = false → e.Awaits →
          ∃ w' ∈ (w.leftover? n).toList ++ words, w'.isDataLast = true := by
        intro c hd hc hbefore
        obtain ⟨w', hmem, hlast⟩ := h hbefore
        rcases List.mem_cons.mp hmem with rfl | hmem
        · rw [Command.Word.isDataLast_of_decode hd, hc] at hlast
          cases hlast
        · exact ⟨w', List.mem_append_right _ hmem, hlast⟩
      rcases e.accept_cases w with ⟨hy, hidle | ⟨verdict, hending⟩⟩ | ⟨error, hy⟩ |
        ⟨clear, hs, hd, -⟩ | ⟨p, last, hs, hd, hy⟩
      · obtain ⟨rfl, rfl⟩ := Prod.mk.inj (hx.symm.trans hy)
        exact hother .idle hidle rfl hawaits
      · obtain ⟨rfl, rfl⟩ := Prod.mk.inj (hx.symm.trans hy)
        rw [Awaits] at hawaits
        rcases hending with hs | hs
        · rw [hs] at hawaits
          exact hawaits.elim
        · rw [hs] at hawaits
          exact hawaits.elim
      · obtain ⟨rfl, rfl⟩ := Prod.mk.inj (hx.symm.trans hy)
        exact absurd hawaits (not_awaits_finish _ _ _)
      · refine hother (.start clear) hd (by cases clear <;> rfl) ?_
        rw [Awaits, hs]
        trivial
      · obtain ⟨rfl, rfl⟩ := Prod.mk.inj (hx.symm.trans hy)
        obtain ⟨hopen, hleft⟩ := Intake.open_of_take (Awaits.closed hawaits hs)
        obtain ⟨w', hmem, hlast⟩ := h (hawaits.of_intake hopen)
        rcases List.mem_cons.mp hmem with rfl | hmem
        · -- the expected word itself: it has not been taken whole, for that closes the input
          have hl : last = true := by
            rw [Command.Word.isDataLast_of_decode hd] at hlast
            cases last with
            | false => cases hlast
            | true => rfl
          have hsome := Command.Word.leftover?_data hd (e.intake.take p last).2
          rw [if_neg (Nat.not_le_of_lt (hleft hl))] at hsome
          rw [hsome]
          refine ⟨_, List.mem_cons_self, ?_⟩
          rw [Command.isDataLast_of_leftover? hsome]
          exact hlast
        · exact ⟨w', List.mem_append_right _ hmem, hlast⟩

/-- **The closing word is to come until the input is closed.** -/
theorem Expects.step {held : Option Command.Word} {answer : Bus.Response} {report : Report}
    (h : e.Expects (held.toList ++ words)) (hrun : ∀ verdict, e.stage ≠ .ended verdict)
    (hx : e.step (held.getD .idle) answer = (e', report)) :
    e'.Expects ((held.bind (·.leftover? report.consumed)).toList ++ words) := by
  obtain ⟨e₂, result, e₃, hs, ha, rfl⟩ := step_parts hx
  have hsettled : e₂.Expects (held.toList ++ words) := by
    intro hawaits
    have hsettle : (e.rest.settle answer).1.Awaits := by
      rw [hs]
      exact hawaits
    have hrest := awaits_of_settle hsettle
    rw [rest_eq hrun] at hrest
    exact h hrest
  intro hawaits
  exact hsettled.accept ha (awaits_of_act hawaits)

/-! ### Cycles of a feeder -/

/-- An engine in the middle of a run, with the closing word still to come if it may wait. -/
structure Live (e : Engine) (words : List Command.Word) : Prop where
  sound : e.Sound
  expects : e.Expects words
  running : ∀ verdict, e.stage ≠ .ended verdict

/-- A new engine is live if there is a word that can close its input. -/
theorem live_new (options : Options) (h : ∃ w ∈ words, w.isDataLast = true) :
    (new options).Live words := by
  refine ⟨sound_new options, fun _ => h, ?_⟩
  rintro verdict ⟨⟩

/-- **A cycle of a feeder** against a memory target ends the run, or leaves it live and makes
progress or stalls. -/
theorem Live.present {memory : Bus.Memory} {held : Option Command.Word}
    {p : Feeder.Presentation} (h : e.Live (held.toList ++ words))
    (hp : Feeder.present e held (memory.respond e.request).1 = p) :
    p.report.status.isTerminal = true ∨
    (p.report.status.isTerminal = false ∧ p.engine.Live (p.held.toList ++ words) ∧
      (p.engine.demand (memory.respond e.request).2 (p.held.toList ++ words) <
          e.demand memory (held.toList ++ words) ∨
        (p.engine.demand (memory.respond e.request).2 (p.held.toList ++ words) ≤
          e.demand memory (held.toList ++ words) ∧ e.Stalls held p.engine p.held))) := by
  have hstep := (Feeder.present_step e held (memory.respond e.request).1).symm
  rw [hp] at hstep
  have hstatus := Feeder.status_present e held (memory.respond e.request).1
  rw [hp] at hstatus
  cases hend : p.report.status.isTerminal with
  | true => exact .inl rfl
  | false =>
      have hheld : p.held = held.bind (·.leftover? p.report.consumed) := by
        rw [← hp] at hend ⊢
        exact Feeder.held_present hend
      have hrunning : ∀ verdict, p.engine.stage ≠ .ended verdict := by
        intro verdict hs
        rw [hstatus, Engine.status, hs] at hend
        cases hend
      have hsound : p.engine.Sound := by
        have hs := h.sound.step (held.getD .idle) (memory.respond e.request).1
        rw [hstep] at hs
        exact hs
      refine .inr ⟨rfl, ?_⟩
      rw [hheld]
      exact ⟨⟨hsound, h.expects.step h.running hstep, hrunning⟩,
        h.sound.step_progress h.running hstep hrunning words⟩

end Engine

end BusScript
