import BusScript.Proofs.Engine.Expectation
import BusScript.Proofs.Run.Limit

/-!
# Every Run Ends

A cycle of an engine makes progress, or it stalls for want of a word. Then it is up to the feeder:
the client of a stream counts its pause down and offers the next word, and a store counts its
latency down. Both come to the end of their waiting, and as long as the engine may wait there is a
word to be had. So what is before the engine and, behind that, what is left of a stall is a rank
that every cycle makes less (`Engine.distance`), and every run ends.

## Main results

* `runWords_ends` — a client that offers a closing word brings the run to an end.
* `runStored_ends` — a run from a store ends, whatever the store holds.
-/

namespace BusScript

open Command (Word)

namespace Engine

variable {e e' : Engine} {memory memory' : Bus.Memory} {words words' : List Word}

/-- Distances from the end of a run, ordered lexicographically. -/
abbrev Distance : Type := (Nat ×ₗ Nat ×ₗ Nat ×ₗ Nat) ×ₗ Nat

/-- How far an engine is from the end of its run: what it has before it and, should it stall, the
cycles in which its intake rests and its feeder waits. -/
def distance (e : Engine) (memory : Bus.Memory) (words : List Word) (wait : Nat) : Distance :=
  toLex (e.demand memory words, e.intake.pulsed.toNat + wait)

/-- A cycle that makes progress, or stalls while the feeder moves on, comes closer to the end. -/
theorem distance_lt {held left : Option Word} {wait wait' : Nat}
    (h : e'.demand memory' words' < e.demand memory words ∨
      (e'.demand memory' words' ≤ e.demand memory words ∧ e.Stalls held e' left))
    (hwait : e.Stalls held e' left → wait' < e.intake.pulsed.toNat + wait) :
    e'.distance memory' words' wait' < e.distance memory words wait := by
  rw [distance, distance, Prod.Lex.toLex_lt_toLex]
  rcases h with hlt | ⟨hle, hstall⟩
  · exact .inl hlt
  · have hlast : e'.intake.pulsed.toNat + wait' < e.intake.pulsed.toNat + wait := by
      rw [hstall.pulsed, Bool.toNat_false, Nat.zero_add]
      exact hwait hstall
    rcases lt_or_eq_of_le hle with hlt | heq
    · exact .inl hlt
    · exact .inr ⟨heq, hlast⟩

/-- While no transaction is outstanding, an engine can accept a word. -/
theorem Sound.canAccept (h : e.Sound) (hout : e.bus.outstanding? = none) :
    e.canAccept = true := by
  rw [h.canAccept_eq]
  exact Bus.Master.isIdle_eq_true_iff.mpr hout

end Engine

/-! ### Lists of words -/

namespace Run.StreamSystem

variable {s : StreamSystem Bus.Memory}

/-- The cycles until a word is presented, unless the engine is busy. -/
def wait (s : StreamSystem Bus.Memory) : Nat :=
  if s.feeder.held.isSome then 0 else s.gap + 1

/-- A client that has words left and is not heard by a feeder that waits for one is pausing. -/
theorem gap_ne_zero (hheld : s.feeder.held = none) (haccept : s.engine.canAccept = true)
    (hpending : s.pending ≠ []) (h : s.offer = none ∨ s.feeder.isOpen = false) : s.gap ≠ 0 := by
  intro hgap
  rcases h with hnone | hclosed
  · rw [offer, if_pos hgap] at hnone
    exact hpending (List.head?_eq_none_iff.mp hnone)
  · rw [Feeder.Stream.isOpen, hheld, show s.feeder.engine.canAccept = true from haccept] at hclosed
    cases hclosed

/-- A system in the middle of a run, at a distance from its end. -/
def Nears (a : Engine.Distance) (s : StreamSystem Bus.Memory) : Prop :=
  s.engine.Live (s.feeder.held.toList ++ s.pending) ∧
    a = s.engine.distance s.target (s.feeder.held.toList ++ s.pending) s.wait

/-- Every cycle ends the run or comes closer to its end. -/
theorem nears_cycle (a : Engine.Distance) (s : StreamSystem Bus.Memory) (h : Nears a s) :
    s.cycle.2.status.isTerminal = true ∨ ∃ b, b < a ∧ Nears b s.cycle.1 := by
  obtain ⟨hlive, rfl⟩ := h
  obtain ⟨held, pending, gap, p, hwords, hp, hx, hwhy⟩ := s.cycle_cases
  rw [hwords] at hlive ⊢
  rw [hx]
  rcases hlive.present hp with hend | ⟨-, hon, hdemand⟩
  · exact .inl hend
  · refine .inr ⟨_, Engine.distance_lt hdemand fun hstall => ?_, hon, rfl⟩
    rcases hstall.resting with ⟨hnone, hleft⟩ | ⟨-, hleft, hpulsed⟩
    · -- no word was presented: the client is pausing, for the closing word is still to come
      obtain ⟨w, hmem, -⟩ := hon.expects hstall.starved.awaits
      rw [hleft] at hmem
      rcases hwhy with ⟨hheld, hpending, hgap, hwhy⟩ | ⟨-, hsome⟩
      · rw [hnone] at hheld
        rw [hpending] at hmem
        have hpause := gap_ne_zero hheld.symm (hlive.sound.canAccept hstall.outstanding)
          (List.ne_nil_of_mem hmem) hwhy
        simp only [wait, hleft, ← hheld, Option.isSome_none, Bool.false_eq_true, if_false, hgap]
        omega
      · rw [hnone] at hsome
        cases hsome
    · simp only [wait, hleft, hpulsed, if_true, Bool.toNat_true]
      omega

end Run.StreamSystem

open Run

/-- **A client that has a closing word to offer brings the run to an end**, whatever the other
words are, however long it pauses and however the target answers. -/
theorem runWords_ends {words : List Word} (h : ∃ w ∈ words, w.isDataLast = true)
    (options : Options) (memory : Bus.Memory) (idleGap : Nat) :
    ∃ n, EndsIn StreamSystem.cycle n (.new options memory words idleGap) :=
  exists_endsIn StreamSystem.nears_cycle ⟨Engine.live_new options h, rfl⟩

/-- Words that start a script and break off before the second byte of a write. -/
def Command.cutOff : List Word := [⟨0x0010000000000000⟩, ⟨0x001b0000001204e4⟩]

/-- A client that closes the input twice behind `Command.cutOff`, with pauses of three cycles. -/
theorem runWords_ends_cutOff :
    (∃ w ∈ Command.cutOff ++ [.idle, Store.sentinel, Store.sentinel], w.isDataLast = true) ∧
      ∃ n, EndsIn StreamSystem.cycle n (.new {} Bus.Memory.sample
        (Command.cutOff ++ [.idle, Store.sentinel, Store.sentinel]) 3) := by
  have h : ∃ w ∈ Command.cutOff ++ [.idle, Store.sentinel, Store.sentinel],
      w.isDataLast = true := ⟨Store.sentinel, by simp, Store.isDataLast_sentinel⟩
  exact ⟨h, runWords_ends h {} Bus.Memory.sample 3⟩

/-! ### Stores -/

namespace Feeder

/-- The cycles until the word that is being fetched is presented. -/
def Fetch.wait : Fetch → Nat
  | .fetching remaining => remaining + 1
  | .stopped | .presenting => 0

namespace Stored

variable {s : Stored} {store : Store} {rest : List Word}

/-- A word that is being fetched comes closer by one cycle. -/
theorem wait_awaitWord (s : Stored) (store : Store) :
    (s.awaitWord store).fetch.wait = s.fetch.wait - 1 := by
  rw [awaitWord]
  rcases hf : s.fetch with _ | (_ | remaining) | _
  · exact congrArg Fetch.wait hf
  · rfl
  · rfl
  · exact congrArg Fetch.wait hf

/-- In a stall nothing has been spent, so the feeder is where it was after its wait. -/
theorem fetch_resume_of_stalls {e : Engine} {answer : Bus.Response} {p : Presentation}
    (hp : present e s.held answer = p) (hopen : p.report.status.isTerminal = false)
    (hstall : e.Stalls s.held p.engine p.held) : (s.resume store p).fetch = s.fetch := by
  have hspent := spent_present e s.held answer
  rw [hp] at hspent
  have hnone : p.spent = none := by
    rcases hstall.resting with ⟨hheld, hleft⟩ | ⟨-, hleft, -⟩
    · rw [hspent, hleft, Option.elim_none, hheld]
    · obtain ⟨w, hw⟩ := Option.isSome_iff_exists.mp hleft
      rw [hspent, hw, Option.elim_some]
  rw [resume_of_spent_eq_none hopen hnone]

/-- A stall takes a cycle off the latency, if it is not the intake that rests: a feeder that has
stopped has presented the closing word, and is not waited for. -/
theorem Feeds.wait_lt {e : Engine} {p : Presentation}
    (h : (s.awaitWord store).Feeds store rest) (hon : p.engine.Live (p.held.toList ++ rest))
    (hstall : e.Stalls (s.awaitWord store).held p.engine p.held) :
    (s.awaitWord store).fetch.wait < e.intake.pulsed.toNat + s.fetch.wait := by
  have hwait := wait_awaitWord s store
  rcases hstall.resting with ⟨hheld, hleft⟩ | ⟨-, -, hpulsed⟩
  · have hfetch := h.fetch
    cases hf : (s.awaitWord store).fetch with
    | stopped =>
        rw [hf] at hfetch
        obtain ⟨w, hmem, -⟩ := hon.expects hstall.starved.awaits
        rw [hleft, hfetch.2] at hmem
        cases hmem
    | fetching remaining =>
        rw [hf, Fetch.wait] at hwait
        rw [Fetch.wait]
        omega
    | presenting =>
        rw [hf] at hfetch
        obtain ⟨w, hw⟩ := hfetch
        rw [hheld] at hw
        cases hw
  · rw [hwait, hpulsed, Bool.toNat_true]
    omega

end Stored

end Feeder

namespace Run.StoredSystem

/-- A system past its request in the middle of a run, at a distance from its end. -/
def Nears (a : Engine.Distance) (s : StoredSystem Bus.Memory) : Prop :=
  s.request = none ∧ ∃ rest, s.feeder.Feeds s.store rest ∧
    s.engine.Live (s.feeder.held.toList ++ rest) ∧
    a = s.engine.distance s.target (s.feeder.held.toList ++ rest) s.feeder.fetch.wait

/-- Every cycle ends the run or comes closer to its end. -/
theorem nears_cycle (a : Engine.Distance) (s : StoredSystem Bus.Memory) (h : Nears a s) :
    s.cycle.2.status.isTerminal = true ∨ ∃ b, b < a ∧ Nears b s.cycle.1 := by
  obtain ⟨hrequest, rest, hfeeds, hlive, rfl⟩ := h
  obtain ⟨rest', hfeeds', hwords⟩ := hfeeds.awaitWord
  obtain ⟨p, hp, hx⟩ := cycle_cases hrequest
  rw [← hwords] at hlive ⊢
  rw [hx]
  rcases hlive.present hp with hend | ⟨hopen, hon, hdemand⟩
  · exact .inl hend
  · obtain ⟨hfeeds'', hkeep⟩ := hfeeds'.resume hp hopen
    have hengine := (s.feeder.awaitWord s.store).engine_resume s.store p
    refine .inr ⟨_, ?_, rfl, rest', hfeeds'', ?_, rfl⟩
    · rw [engine, hengine, hkeep]
      refine Engine.distance_lt hdemand fun hstall => ?_
      rw [Feeder.Stored.fetch_resume_of_stalls hp hopen hstall]
      exact hfeeds'.wait_lt hon hstall
    · rw [engine, hengine, hkeep]
      exact hon

/-- A request begins a run at some distance from its end, if there is a last word to be found. -/
theorem nears_begin {store : Store} {address : BitVec 16} {found : List Word}
    (hfinds : store.Finds address found) (hne : found ≠ []) (hclosing : Command.Closing found)
    (options : Options) (memory : Bus.Memory) :
    ∃ a, Nears a ⟨(Feeder.Stored.new options).begin store address, store, memory, none⟩ :=
  ⟨_, rfl, found, ⟨hfinds, hclosing, rfl, hne⟩,
    Engine.live_new options (hclosing.exists_isDataLast hne), rfl⟩

end Run.StoredSystem

/-- **A run from a store ends**, whatever words the store holds and wherever the run begins, as
long as the store leaves an address free. The number of cycles does not depend on the limit on
them, and is the only reason why a run can exceed its limit. -/
theorem runStored_ends {words : Array Word} (hsize : words.size ≤ 65535) (options : Options)
    (latency : Nat) (memory : Bus.Memory) (address : BitVec 16) :
    ∃ n, ∀ options', options.Alike options' →
      EndsIn StoredSystem.cycle n (.new options' (.ofWords words latency) memory address) ∧
      ∀ error, (runStored options' (.ofWords words latency) memory address).1 = .error error ↔
        error = ⟨options'.maxCycles⟩ ∧ max options'.maxCycles 1 < n := by
  obtain ⟨found, hfinds, hne, hclosing⟩ := Store.exists_finds hsize latency address
  obtain ⟨n, hn⟩ : ∃ n, EndsIn StoredSystem.cycle n
      (.new options (.ofWords words latency) memory address) := by
    obtain ⟨a, ha⟩ := StoredSystem.nears_begin hfinds hne hclosing options memory
    obtain ⟨n, hn⟩ := exists_endsIn StoredSystem.nears_cycle ha
    exact ⟨n, hn.congr (StoredSystem.cycle_new options _ memory address)⟩
  refine ⟨n, fun options' halike => ?_⟩
  have hn' := StoredSystem.endsIn_of_alike hn halike
  exact ⟨hn', hn'.complete_eq_error_iff⟩

/-- A store with nothing behind `Command.cutOff`: its run is ended by the word found outside. -/
theorem runStored_ends_cutOff :
    Command.cutOff.toArray.size ≤ 65535 ∧
      ∃ n, ∀ options', Options.Alike {} options' →
        EndsIn StoredSystem.cycle n
          (.new options' (.ofWords Command.cutOff.toArray 2) Bus.Memory.sample 0) ∧
        ∀ error, (runStored options' (.ofWords Command.cutOff.toArray 2) Bus.Memory.sample 0).1 =
            .error error ↔
          error = ⟨options'.maxCycles⟩ ∧ max options'.maxCycles 1 < n :=
  ⟨by decide, runStored_ends (by decide) {} 2 Bus.Memory.sample 0⟩

end BusScript
