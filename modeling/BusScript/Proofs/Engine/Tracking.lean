import BusScript.Proofs.Command.Framed
import BusScript.Proofs.Engine.Sound
import BusScript.Proofs.Semantics.Activity

/-!
# Engines Carry Out Their Bytes

An engine takes a script from command words, queues it and executes it at the same time, so at
any moment part of it is done, part is queued and part is still to come. `Engine.Outlook` puts
the three together again: it says what may become of the machine that the engine has reached so
far. The engine is on its way to one of the conclusions `C` if its outlook lies within `C`
(`Engine.Tracks`), and each part of a cycle keeps it on its way, however the target waits and
whenever the words come.

## Main results

* `Engine.Tracks.step` — a cycle against a memory target.
* `Engine.Tracks.conclusion` — an engine whose run has ended has come to its conclusion.
-/

namespace BusScript

namespace Engine

/-! ### Being on the way -/

/-- What may become of the machine `m` that an engine has reached, where `coming` are the bytes
that have not come to its queue. An outstanding transaction has not had its effect on `m`. -/
def Outlook (e : Engine) (m : Machine) (coming : List Byte) (c : Conclusion) : Prop :=
  match e.stage, e.bus.outstanding? with
  | .idle, _ => m.Concludes e.options.stride coming c
  | .header, _ => m.Concludes e.options.stride (e.intake.queue ++ coming) c
  | .executing a, none => a.Concludes e.options.stride m (e.intake.queue ++ coming) c
  | .executing a, some t => a.ConcludesWith e.options.stride t m (e.intake.queue ++ coming) c
  | .completing, _ => c = ⟨.completed, none, m⟩
  | .draining verdict, some t => c = ⟨verdict, e.lastError, (m.perform t).2⟩
  | .draining verdict, none | .ended verdict, _ =>
    c = ⟨verdict, if verdict = .completed then none else e.lastError, m⟩

/-- The words that are still to be presented bring the bytes that are still to come. -/
def Supplied (e : Engine) (words : List Command.Word) (coming : List Byte) : Prop :=
  match e.stage with
  | .idle => e.registers = .initial e.options ∧ Command.Framed words coming
  | .header | .executing _ => Command.Delivers e.intake.closed words coming
  | .completing => Command.Quiet words
  | .draining _ | .ended _ => True

/-- An engine that has come as far as the machine `m` and is on its way to one of the
conclusions `C`, with `words` still to be presented. -/
structure Tracks (e : Engine) (m : Machine) (words : List Command.Word) (coming : List Byte)
    (C : Conclusion → Prop) : Prop where
  sound : e.Sound
  registers : e.registers.table = m.registers
  issued : e.bus.issued = m.transactions + e.bus.outstanding?.toList.length
  supplied : e.Supplied words coming
  outlook : ∀ c, e.Outlook m coming c → C c

variable {e : Engine} {m : Machine} {words : List Command.Word} {coming : List Byte}
  {C : Conclusion → Prop}

/-- A new engine is on its way to what may become of the bytes in the words. -/
theorem tracks_new {options : Options} (memory : Bus.Atomic)
    (h : Command.Framed words coming) :
    (new options).Tracks (.initial options memory) words coming
      ((Machine.initial options memory).Concludes options.stride coming) :=
  ⟨sound_new options, Registers.table_initial options, rfl, ⟨rfl, h⟩, fun _ hc => hc⟩

/-- While nothing is outstanding, all issued transactions have been made. -/
theorem Tracks.issued_eq (h : e.Tracks m words coming C) (hout : e.bus.outstanding? = none) :
    e.bus.issued = m.transactions := by
  rw [h.issued, hout]
  rfl

/-- An outstanding transaction has been issued and not made. -/
theorem Tracks.issued_eq_succ (h : e.Tracks m words coming C) {t : Bus.Transaction}
    (hout : e.bus.outstanding? = some t) : e.bus.issued = m.transactions + 1 := by
  rw [h.issued, hout]
  rfl

/-! ### Stage by stage -/

section Stages

variable {c : Conclusion} {a : Activity} {t : Bus.Transaction} {verdict : Verdict}

theorem outlook_idle (hs : e.stage = .idle) :
    e.Outlook m coming c ↔ m.Concludes e.options.stride coming c := by
  rw [Outlook, hs]

theorem outlook_header (hs : e.stage = .header) :
    e.Outlook m coming c ↔ m.Concludes e.options.stride (e.intake.queue ++ coming) c := by
  rw [Outlook, hs]

theorem outlook_executing (hs : e.stage = .executing a) (hout : e.bus.outstanding? = none) :
    e.Outlook m coming c ↔ a.Concludes e.options.stride m (e.intake.queue ++ coming) c := by
  rw [Outlook, hs, hout]

theorem outlook_outstanding (hs : e.stage = .executing a) (hout : e.bus.outstanding? = some t) :
    e.Outlook m coming c ↔
      a.ConcludesWith e.options.stride t m (e.intake.queue ++ coming) c := by
  rw [Outlook, hs, hout]

theorem outlook_completing (hs : e.stage = .completing) :
    e.Outlook m coming c ↔ c = ⟨.completed, none, m⟩ := by
  rw [Outlook, hs]

theorem outlook_draining (hs : e.stage = .draining verdict)
    (hout : e.bus.outstanding? = some t) :
    e.Outlook m coming c ↔ c = ⟨verdict, e.lastError, (m.perform t).2⟩ := by
  rw [Outlook, hs, hout]

theorem outlook_ended (hs : e.stage = .ended verdict) :
    e.Outlook m coming c ↔
      c = ⟨verdict, if verdict = .completed then none else e.lastError, m⟩ := by
  rw [Outlook, hs]

theorem supplied_idle (hs : e.stage = .idle) :
    e.Supplied words coming ↔
      e.registers = .initial e.options ∧ Command.Framed words coming := by
  rw [Supplied, hs]

theorem supplied_completing (hs : e.stage = .completing) :
    e.Supplied words coming ↔ Command.Quiet words := by
  rw [Supplied, hs]

/-- A running script is being supplied with bytes. -/
theorem supplied_running (hs : e.stage = .header ∨ ∃ a, e.stage = .executing a) :
    e.Supplied words coming ↔ Command.Delivers e.intake.closed words coming := by
  rcases hs with hs | ⟨a, hs⟩ <;> rw [Supplied, hs]

/-- A run that is ending does not depend on the words to come. -/
theorem supplied_ending (hs : e.stage = .draining verdict ∨ e.stage = .ended verdict) :
    e.Supplied words coming := by
  rcases hs with hs | hs <;> rw [Supplied, hs] <;> trivial

end Stages

/-- Between two operations. -/
theorem tracks_header (hs : e.stage = .header) (hsound : e.Sound)
    (hregisters : e.registers.table = m.registers) (hissued : e.bus.issued = m.transactions)
    (hsupplied : Command.Delivers e.intake.closed words coming)
    (hc : ∀ c, m.Concludes e.options.stride (e.intake.queue ++ coming) c → C c) :
    e.Tracks m words coming C := by
  have hout : e.bus.outstanding? = none := hsound.fits_of hs
  refine ⟨hsound, hregisters, by rw [hissued, hout]; rfl,
    (supplied_running (.inl hs)).mpr hsupplied, fun c h => hc c ((outlook_header hs).mp h)⟩

/-- Within an operation, between two transactions. -/
theorem tracks_executing {a : Activity} (hs : e.stage = .executing a) (hsound : e.Sound)
    (hout : e.bus.outstanding? = none) (hregisters : e.registers.table = m.registers)
    (hissued : e.bus.issued = m.transactions)
    (hsupplied : Command.Delivers e.intake.closed words coming)
    (hc : ∀ c, a.Concludes e.options.stride m (e.intake.queue ++ coming) c → C c) :
    e.Tracks m words coming C := by
  refine ⟨hsound, hregisters, by rw [hissued, hout]; rfl,
    (supplied_running (.inr ⟨a, hs⟩)).mpr hsupplied,
    fun c h => hc c ((outlook_executing hs hout).mp h)⟩

/-- Within an operation, while a transaction is outstanding. -/
theorem tracks_outstanding {a : Activity} {t : Bus.Transaction} (hs : e.stage = .executing a)
    (hsound : e.Sound) (hout : e.bus.outstanding? = some t)
    (hregisters : e.registers.table = m.registers) (hissued : e.bus.issued = m.transactions + 1)
    (hsupplied : Command.Delivers e.intake.closed words coming)
    (hc : ∀ c, a.ConcludesWith e.options.stride t m (e.intake.queue ++ coming) c → C c) :
    e.Tracks m words coming C := by
  refine ⟨hsound, hregisters, by rw [hissued, hout]; rfl,
    (supplied_running (.inr ⟨a, hs⟩)).mpr hsupplied,
    fun c h => hc c ((outlook_outstanding hs hout).mp h)⟩

/-! ### Ending a run -/

/-- **An engine whose run has ended has come to its conclusion.** -/
theorem Tracks.conclusion (h : e.Tracks m words coming C) {verdict : Verdict}
    (hs : e.stage = .ended verdict) :
    C ⟨verdict, if verdict = .completed then none else e.lastError, m⟩ ∧
      e.bus.issued = m.transactions :=
  ⟨h.outlook _ ((outlook_ended hs).mpr rfl), h.issued_eq (h.sound.fits_of hs)⟩

/-- Ending a run while nothing is outstanding comes to a conclusion. -/
theorem tracks_finish {verdict : Verdict} {error : Option RunError}
    (hout : e.bus.outstanding? = none) (hregisters : e.registers.table = m.registers)
    (hissued : e.bus.issued = m.transactions)
    (hc : C ⟨verdict, if verdict = .completed then none else error <|> e.lastError, m⟩) :
    (e.finish verdict error).Tracks m words coming C := by
  have hstage : (e.finish verdict error).stage = .ended verdict :=
    if_pos (Bus.Master.isIdle_eq_true_iff.mpr hout)
  have hbus : (e.finish verdict error).bus = e.bus := rfl
  refine ⟨sound_finish hout _ _, hregisters, ?_, supplied_ending (.inr hstage), ?_⟩
  · rw [hbus, hout, hissued]
    rfl
  · intro c h
    rw [(outlook_ended hstage).mp h]
    exact hc

/-- A run that fails while nothing is outstanding has come to its conclusion. -/
theorem tracks_fail {error : RunError} (hout : e.bus.outstanding? = none)
    (hregisters : e.registers.table = m.registers) (hissued : e.bus.issued = m.transactions)
    (hc : C ⟨.errored, some error, m⟩) : (e.fail error).Tracks m words coming C :=
  tracks_finish hout hregisters hissued hc

/-- A run that fails while a transaction is outstanding concludes with that transaction. -/
theorem tracks_fail_outstanding {error : RunError} {t : Bus.Transaction}
    (hout : e.bus.outstanding? = some t) (hregisters : e.registers.table = m.registers)
    (hissued : e.bus.issued = m.transactions + 1)
    (hc : C ⟨.errored, some error, (m.perform t).2⟩) :
    (e.fail error).Tracks m words coming C := by
  have hbusy : ¬ e.bus.isIdle = true := by
    rw [Bus.Master.isIdle_eq_true_iff, hout]
    exact Option.some_ne_none t
  have hstage : (e.fail error).stage = .draining .errored := if_neg hbusy
  have hbus : (e.fail error).bus = e.bus := rfl
  refine ⟨sound_fail _ _, hregisters, ?_, supplied_ending (.inl hstage), ?_⟩
  · rw [hbus, hout, hissued]
    rfl
  · intro c h
    rw [(outlook_draining hstage hout).mp h]
    exact hc

/-! ### The first part: forgetting the run before -/

/-- The beginning of a cycle. -/
theorem Tracks.rest (h : e.Tracks m words coming C) (hrun : ∀ verdict, e.stage ≠ .ended verdict) :
    e.rest.Tracks m words coming C := by
  have hsound := h.sound.rest
  rw [rest_eq hrun] at hsound ⊢
  exact ⟨hsound, h.registers, h.issued, h.supplied, h.outlook⟩

/-! ### The second part: settling the bus -/

/-- The second part of a cycle against a memory target: nothing retires, or the outstanding
transaction does with its effect on the machine that sees the same memory. -/
theorem settle_memory {memory : Bus.Memory} (hm : m.memory = memory.atomic) :
    (∃ bus, e.settle (memory.respond e.request).1 = ({ e with bus }, none) ∧
      bus.outstanding? = e.bus.outstanding? ∧ bus.issued = e.bus.issued ∧
      m.memory = (memory.respond e.request).2.atomic) ∨
    (∃ t, e.bus.outstanding? = some t ∧
      e.settle (memory.respond e.request).1 = e.released.retire t (m.perform t).1 ∧
      (m.perform t).2.memory = (memory.respond e.request).2.atomic) := by
  rw [Engine.settle, request]
  rcases e.bus.advance_memory memory with ⟨bus, hadv, hout, hissued, hview⟩ | ⟨t, ht, hadv, hview⟩
  · exact .inl ⟨bus, by rw [hadv], hout, hissued, by rw [hview, hm]⟩
  · refine .inr ⟨t, ht, ?_, ?_⟩
    · rw [hadv, Machine.perform, hm]
      rfl
    · rw [hview, Machine.perform, hm]

/-- A transfer of which a transaction has retired. -/
theorem tracks_afterTransfer {a : Activity} {t : Transfer} (hout : e.bus.outstanding? = none)
    (hsound : ({ e with stage := afterTransfer a t } : Engine).Sound)
    (hregisters : e.registers.table = m.registers) (hissued : e.bus.issued = m.transactions)
    (hsupplied : Command.Delivers e.intake.closed words coming)
    (hdone : t.remaining = 0 → ∀ c, m.Concludes e.options.stride (e.intake.queue ++ coming) c → C c)
    (hmore : ∀ c, a.Concludes e.options.stride m (e.intake.queue ++ coming) c → C c) :
    ({ e with stage := afterTransfer a t } : Engine).Tracks m words coming C := by
  by_cases hr : t.remaining = 0
  · exact tracks_header (if_pos hr) hsound hregisters hissued hsupplied (hdone hr)
  · exact tracks_executing (if_neg hr) hsound hout hregisters hissued hsupplied hmore

/-- The effect of a retired transaction: the machine has made it, and holds the value that is
reported. -/
theorem Tracks.retire {t : Bus.Transaction} {outcome : Bus.Outcome} {m' : Machine}
    (h : e.Tracks m words coming C) (ht : e.bus.outstanding? = some t)
    (hx : m.perform t = (outcome, m')) (hsound : (e.released.retire t outcome).1.Sound) :
    ∃ m'', (e.released.retire t outcome).1.Tracks m'' words coming C ∧
      m''.memory = m'.memory ∧
      m''.results = m.results ++ (e.released.retire t outcome).2.toList := by
  have hidle : e.released.bus.outstanding? = none := rfl
  have hstage : e.released.stage = e.stage := rfl
  obtain ⟨hr, hres, htr, -⟩ := Machine.eq_of_perform hx
  have hissued : e.released.bus.issued = m'.transactions := by
    rw [htr]
    exact h.issued_eq_succ ht
  have hregisters : e.released.registers.table = m'.registers := by
    rw [hr]
    exact h.registers
  have hsame : m'.results = m.results ++ [] := by rw [hres, List.append_nil]
  rcases h.sound.stage_of_outstanding ht with ⟨a, hs, hfits⟩ | hs
  · have hsupplied := (supplied_running (.inr ⟨a, hs⟩)).mp h.supplied
    have hc := fun c hd => h.outlook c ((outlook_outstanding hs ht).mpr hd)
    rw [hs] at hstage
    rcases Machine.perform_cases hx with rfl | ⟨hread, v, rfl⟩ | ⟨hwrite, rfl⟩
    · rw [retire_fault hstage]
      have hend := hc _ ((Activity.concludesWith_fault hx).mpr (.inl rfl))
      exact ⟨m', tracks_fail hidle hregisters hissued hend, rfl, hsame⟩
    · cases a with
      | read r =>
          simp only [Activity.concludesWith_read hx] at hc
          rw [retire_read hstage] at hsound ⊢
          refine ⟨{ m' with results := m'.results ++ [⟨r.width, v &&& r.width.mask⟩] }, ?_, rfl,
            by rw [hres]; rfl⟩
          exact tracks_afterTransfer hidle hsound hregisters hissued hsupplied
            (fun hz c hd => hc c (Activity.concludes_read_done hz hd)) hc
      | write w => exact absurd hfits.2 (by simp [hread])
      | poll p =>
          simp only [Activity.concludesWith_poll hx] at hc
          rw [retire_poll hstage] at hsound ⊢
          by_cases hv : p.isSatisfied v = true
          · simp only [hv, if_true] at hc hsound ⊢
            exact ⟨m', tracks_header rfl hsound hregisters hissued hsupplied hc, rfl, hsame⟩
          · simp only [hv] at hc hsound ⊢
            by_cases hb : p.budget ≤ p.attempts
            · simp only [hb, if_true] at hsound ⊢
              have hend := hc _ (Activity.concludes_poll_exhausted hb)
              exact ⟨m', tracks_finish hidle hregisters hissued hend, rfl, hsame⟩
            · simp only [hb, if_false] at hsound ⊢
              exact ⟨m', tracks_executing rfl hsound hidle hregisters hissued hsupplied hc, rfl,
                hsame⟩
    · cases a with
      | read r => exact absurd hfits.2 (by simp [hwrite])
      | write w =>
          simp only [Activity.concludesWith_write hx] at hc
          rw [retire_written hstage] at hsound ⊢
          refine ⟨m', ?_, rfl, hsame⟩
          exact tracks_afterTransfer hidle hsound hregisters hissued hsupplied
            (fun hz c hd => hc c (Activity.concludes_write_done hz hd)) hc
      | poll p =>
          obtain ⟨-, -, -, rfl⟩ := hfits
          cases hwrite
  · have hend := h.outlook _ ((outlook_draining hs ht).mpr rfl)
    rw [hx] at hend
    rw [hs] at hstage
    rw [retire_draining hstage] at hsound ⊢
    refine ⟨m', ⟨hsound, hregisters, hissued, trivial, ?_⟩, rfl, hsame⟩
    rintro c rfl
    exact hend

/-- The bus moves on. -/
theorem Tracks.settle {memory : Bus.Memory} (h : e.Tracks m words coming C)
    (hm : m.memory = memory.atomic) :
    ∃ m', (e.settle (memory.respond e.request).1).1.Tracks m' words coming C ∧
      m'.memory = (memory.respond e.request).2.atomic ∧
      m'.results = m.results ++ (e.settle (memory.respond e.request).1).2.toList := by
  have hsound := h.sound.settle (memory.respond e.request).1
  rcases settle_memory (e := e) hm with ⟨bus, hx, hout, hissued, hview⟩ | ⟨t, ht, hx, hview⟩
  · rw [hx] at hsound ⊢
    refine ⟨m, ⟨hsound, h.registers, ?_, h.supplied, ?_⟩, hview, (List.append_nil _).symm⟩
    · simp only [hissued, hout]
      exact h.issued
    · have houtlook := h.outlook
      unfold Outlook at houtlook ⊢
      simp only [hout]
      exact houtlook
  · rw [hx] at hsound ⊢
    rw [← hview]
    exact h.retire ht rfl hsound

/-! ### The third part: taking a word -/

/-- A word that starts a script, while none runs and the registers have their defaults. -/
theorem accept_start {w : Command.Word} {clear : Bool} (hs : e.stage = .idle)
    (hregisters : e.registers = .initial e.options) (hw : w.decode = .ok (.start clear)) :
    e.accept w = ({ e with
      intake := e.intake.reset
      stage := .header
      lastError := if clear then none else e.lastError }, 0) := by
  rw [accept, hs, hw]
  simp only [obey, hs]
  cases clear with
  | false => rfl
  | true => simp [hregisters]

/-- A word that asks for nothing leaves the engine on its way, if the words behind it supply
what the word did. -/
theorem Tracks.accept_of_idle {w : Command.Word} (h : e.Tracks m (w :: words) coming C)
    (hw : w.decode = .ok .idle) (hwords : e.Supplied words coming) :
    ∃ coming', (e.accept w).1.Tracks m
      ((w.leftover? (e.accept w).2).toList ++ words) coming' C := by
  rw [accept_idle hw, Command.Word.leftover?_of_not_isData hw rfl]
  exact ⟨coming, h.sound, h.registers, h.issued, hwords, h.outlook⟩

/-- A word that starts a script. -/
theorem Tracks.accept_of_start {w : Command.Word} {clear : Bool}
    (h : e.Tracks m (w :: words) coming C) (hs : e.stage = .idle)
    (hregisters : e.registers = .initial e.options) (hw : w.decode = .ok (.start clear))
    (hwords : Command.Delivers false words coming) :
    ∃ coming', (e.accept w).1.Tracks m
      ((w.leftover? (e.accept w).2).toList ++ words) coming' C := by
  have hsound := h.sound.accept w
  have hissued := h.issued_eq (h.sound.fits_of hs)
  rw [accept_start hs hregisters hw] at hsound ⊢
  rw [Command.Word.leftover?_of_not_isData hw (by cases clear <;> rfl)]
  exact ⟨coming, tracks_header rfl hsound h.registers hissued hwords
    fun c hc => h.outlook c ((outlook_idle hs).mpr hc)⟩

/-- A word that comes to a running script: it asks for nothing, or it carries bytes. -/
theorem Tracks.accept_of_running {w : Command.Word} (h : e.Tracks m (w :: words) coming C)
    (hs : e.stage = .header ∨ ∃ a, e.stage = .executing a) :
    ∃ coming', (e.accept w).1.Tracks m
      ((w.leftover? (e.accept w).2).toList ++ words) coming' C := by
  have hdelivers := (supplied_running hs).mp h.supplied
  rcases hdelivers.decode_head with ⟨hw, hwords⟩ | ⟨p, last, hopen, hw⟩
  · exact h.accept_of_idle hw ((supplied_running hs).mpr hwords)
  · obtain ⟨i, n, htake, hn, hqueue, hclosed⟩ := Intake.take_cases hopen p last
    have hsound := h.sound.accept w
    rw [hopen] at hdelivers
    obtain ⟨coming', hbytes, hwords⟩ := hdelivers.take hw hn
    rw [accept_data hs hw, htake] at hsound ⊢
    -- the bytes that were taken go from the words to the queue
    have hlist : i.queue ++ coming' = e.intake.queue ++ coming := by
      rw [hqueue, hbytes, List.append_assoc]
    rw [← hclosed] at hwords
    have hsupplied := (supplied_running (e := { e with intake := i }) hs).mpr hwords
    refine ⟨coming', hsound, h.registers, h.issued, hsupplied, ?_⟩
    intro c hc
    refine h.outlook c ?_
    rw [Outlook] at hc ⊢
    rcases hs with hs | ⟨a, hs⟩
    · simp only [hs, hlist] at hc ⊢
      exact hc
    · cases hout : e.bus.outstanding? <;> simp only [hs, hout, hlist] at hc ⊢ <;> exact hc

/-- The held word is presented, or an idle one if none is held; what is left of it stays in
front of the words to come. -/
theorem Tracks.accept {held : Option Command.Word}
    (h : e.Tracks m (held.toList ++ words) coming C) :
    ∃ coming', (e.accept (held.getD .idle)).1.Tracks m
      ((held.bind (·.leftover? (e.accept (held.getD .idle)).2)).toList ++ words) coming' C := by
  cases held with
  | none =>
      rw [Option.getD_none, accept_idle Command.Word.decode_idle]
      exact ⟨coming, h⟩
  | some w =>
      rw [Option.getD_some, Option.bind_some]
      cases hs : e.stage with
      | idle =>
          obtain ⟨hregisters, hframed⟩ := (supplied_idle hs).mp h.supplied
          cases hframed with
          | idle hw hwords =>
              exact h.accept_of_idle hw ((supplied_idle hs).mpr ⟨hregisters, hwords⟩)
          | start hw hwords => exact h.accept_of_start hs hregisters hw hwords
      | header => exact h.accept_of_running (.inl hs)
      | executing a => exact h.accept_of_running (.inr ⟨a, hs⟩)
      | completing =>
          obtain ⟨hw, hwords⟩ := Command.quiet_cons.mp ((supplied_completing hs).mp h.supplied)
          exact h.accept_of_idle hw ((supplied_completing hs).mpr hwords)
      | draining verdict =>
          rw [accept_ending (.inl hs)]
          exact ⟨coming, h.sound, h.registers, h.issued, supplied_ending (.inl hs), h.outlook⟩
      | ended verdict =>
          rw [accept_ending (.inr hs)]
          exact ⟨coming, h.sound, h.registers, h.issued, supplied_ending (.inr hs), h.outlook⟩

/-! ### The fourth part: the decision of a cycle -/

/-- Reading a header. Setting a register is done on the machine at once. -/
theorem Tracks.readHeader (h : e.Tracks m words coming C) (hs : e.stage = .header) :
    ∃ m', e.readHeader.Tracks m' words coming C ∧ m'.memory = m.memory ∧
      m'.results = m.results := by
  have hsupplied := (supplied_running (.inl hs)).mp h.supplied
  have hc := fun c hd => h.outlook c ((outlook_header hs).mpr hd)
  have hout : e.bus.outstanding? = none := h.sound.fits_of hs
  have hissued := h.issued_eq hout
  have hsound := h.sound.readHeader hs
  rcases e.readHeader_cases with ⟨hclosed, hq, hx⟩ | ⟨opcode, operand, rest, hq, hx⟩ |
    ⟨b, hq, hclosed, hx⟩ | ⟨-, -, hx⟩
  · rw [hclosed] at hsupplied
    obtain ⟨rfl, hquiet⟩ := hsupplied
    rw [hq] at hc
    rw [hx] at hsound ⊢
    refine ⟨m, ⟨hsound, h.registers, h.issued, hquiet, ?_⟩, rfl, rfl⟩
    rintro c rfl
    exact hc _ .done
  · rw [hq, List.cons_append, List.cons_append] at hc
    rcases hx with ⟨error, hd, hx⟩ | ⟨target, value, hd, hx⟩ | ⟨header, a, hd, ha, hx⟩
    · rw [hx]
      exact ⟨m, tracks_fail hout h.registers hissued (hc _ (.malformed hd)), rfl, rfl⟩
    · rw [hx] at hsound ⊢
      refine ⟨{ m with registers := m.registers.set target value }, ?_, rfl, rfl⟩
      exact tracks_header hs hsound (by rw [Registers.table_set, h.registers]) hissued hsupplied
        fun c hd' => hc c (Activity.concludes_set hd hd')
    · rw [hx] at hsound ⊢
      exact ⟨m, tracks_executing rfl hsound hout h.registers hissued hsupplied
        fun c hd' => hc c (Activity.Concludes.operation h.registers hd ha hd'), rfl, rfl⟩
  · rw [hclosed] at hsupplied
    obtain ⟨rfl, -⟩ := hsupplied
    rw [hq] at hc
    rw [hx]
    exact ⟨m, tracks_fail hout h.registers hissued (hc _ .cutHeader), rfl, rfl⟩
  · rw [hx]
    exact ⟨m, h, rfl, rfl⟩

/-- Moving an operation on. Bytes that are missing when the input is closed will not come, so
that the operation may be given up. -/
theorem Tracks.execute {a : Activity} (h : e.Tracks m words coming C)
    (hs : e.stage = .executing a) : (e.execute a).Tracks m words coming C := by
  have hsound := h.sound.execute hs
  have hsupplied := (supplied_running (.inr ⟨a, hs⟩)).mp h.supplied
  rcases e.execute_cases a with ⟨hclosed, hlt, hx⟩ | ⟨hx, -⟩ | ⟨hout, hx⟩
  · rw [hclosed] at hsupplied
    obtain ⟨rfl, -⟩ := hsupplied
    rw [hx]
    cases hout : e.bus.outstanding? with
    | none =>
        have hc := fun c hd => h.outlook c ((outlook_executing hs hout).mpr hd)
        rw [List.append_nil] at hc
        exact tracks_fail hout h.registers (h.issued_eq hout) (hc _ (Activity.concludes_quit hlt))
    | some t =>
        have hc := fun c hd => h.outlook c ((outlook_outstanding hs hout).mpr hd)
        rw [List.append_nil] at hc
        have hfits := h.sound.fits_of hs
        rw [hout] at hfits
        have hwrite : t.isWrite = true := Activity.Fits.isWrite_of_bytesNeeded hfits hlt
        exact tracks_fail_outstanding hout h.registers (h.issued_eq_succ hout)
          (hc _ (Activity.concludesWith_quit hwrite hlt))
  · rw [hx]
    exact h
  · have hc := fun c hd => h.outlook c ((outlook_executing hs hout).mpr hd)
    have hissued := h.issued_eq hout
    rcases hx with ⟨t, rfl, hr, hx⟩ | ⟨t, rfl, hr, hlen, hx⟩ | ⟨p, rfl, -, hx⟩ |
      ⟨p, rfl, -, hx⟩
    · rw [hx] at hsound ⊢
      exact tracks_outstanding rfl hsound rfl h.registers (by rw [← hissued]; rfl) hsupplied
        fun c hd => hc c (Activity.concludes_read hr hd)
    · rw [hx] at hsound ⊢
      refine tracks_outstanding rfl hsound rfl h.registers (by rw [← hissued]; rfl) hsupplied ?_
      intro c hd
      refine hc c (Activity.concludes_write hr ?_ ?_)
      · rw [List.length_append]
        omega
      · rw [List.take_append_of_le_length hlen, List.drop_append_of_le_length hlen]
        exact hd
    · rw [hx] at hsound ⊢
      exact tracks_executing rfl hsound hout h.registers hissued hsupplied hc
    · rw [hx] at hsound ⊢
      have hfits := h.sound.fits_of hs
      rw [hout] at hfits
      have hlt : p.attempts < p.budget := hfits.2
      exact tracks_outstanding rfl hsound rfl h.registers (by rw [← hissued]; rfl) hsupplied
        fun c hd => hc c (Activity.concludes_poll hlt hd)

/-- The one decision of a cycle. -/
theorem Tracks.act (h : e.Tracks m words coming C) :
    ∃ m', e.act.Tracks m' words coming C ∧ m'.memory = m.memory ∧ m'.results = m.results := by
  rw [Engine.act]
  cases hs : e.stage with
  | header => exact h.readHeader hs
  | executing a => exact ⟨m, h.execute hs, rfl, rfl⟩
  | completing =>
      have hout : e.bus.outstanding? = none := h.sound.fits_of hs
      have hc := h.outlook _ ((outlook_completing hs).mpr rfl)
      exact ⟨m, tracks_finish hout h.registers (h.issued_eq hout) hc, rfl, rfl⟩
  | idle | draining verdict | ended verdict => exact ⟨m, h, rfl, rfl⟩

/-! ### A whole cycle -/

/-- **An engine stays on its way** through a cycle against a memory target, in which the held
word was presented. The machine goes with the memory, and the value that is reported is the
next one that the machine has read. -/
theorem Tracks.step {held : Option Command.Word} {memory : Bus.Memory}
    (h : e.Tracks m (held.toList ++ words) coming C)
    (hrun : ∀ verdict, e.stage ≠ .ended verdict) (hm : m.memory = memory.atomic) :
    ∃ m' coming',
      (e.step (held.getD .idle) (memory.respond e.request).1).1.Tracks m'
        ((held.bind (·.leftover? (e.step (held.getD .idle)
          (memory.respond e.request).1).2.consumed)).toList ++ words) coming' C ∧
      m'.memory = (memory.respond e.request).2.atomic ∧
      m'.results = m.results ++
        (e.step (held.getD .idle) (memory.respond e.request).1).2.result.toList := by
  obtain ⟨m₁, hsettle, hmemory, hresults⟩ := (h.rest hrun).settle hm
  obtain ⟨coming', haccept⟩ := hsettle.accept
  obtain ⟨m₂, hact, hmemory', hresults'⟩ := haccept.act
  exact ⟨m₂, coming', hact, hmemory'.trans hmemory, hresults'.trans hresults⟩

end Engine

end BusScript
