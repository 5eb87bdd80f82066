import ZBasic.Clocked.Delivery
import ZBasic.Host.Channels

/-!
# Everything that arrives is passed on

The ways between the sockets and the FPGA are made of stages, each of which lets out what it
holds if the server, the line and the FPGA go on. From the FPGA to the sockets that is all it
takes. The other way the server reads the sockets only after it has found nothing on the
serial port, so it takes that this happens again and again.
-/

namespace ZBasic

open Clocked

namespace Channels

/-- The server, the line and the FPGA go on. -/
structure Fair (ev : ℕ → Event) : Prop where
  calls : ∀ n, ∃ m, n ≤ m ∧ ∃ k, 0 < k ∧ ev m = .call k
  arrives : ∀ n, ∃ m, n ≤ m ∧ ev m = .arrive
  receives : ∀ n, ∃ m, n ≤ m ∧ ∃ i, ev m = .clock i ∧ i.iRxStb = true
  transmits : ∀ n, ∃ m, n ≤ m ∧ ∃ i, ev m = .clock i ∧ i.iTxBusy = false

/-- The server keeps up with the serial port: again and again it looks there and finds
nothing. -/
def KeepsUp (x : ℕ → Channels) (ev : ℕ → Event) : Prop :=
  ∀ n, ∃ m, n ≤ m ∧ (∃ k, ev m = .call k) ∧ (x m).net.looks = true ∧ (x m).net.tty = []

/-! ### What the stages let out -/

section Observed

variable (s : Channels) (e : Event)

/-- What is read from the command socket. -/
def fetchedCmd : List (BitVec 8) :=
  match e with
  | .call k => s.net.fetchedCmd k
  | _ => []

/-- What is read from the console socket. -/
def fetchedCon : List (BitVec 8) :=
  match e with
  | .call k => s.net.fetchedCon k
  | _ => []

/-- What is written to the serial port. -/
def written : List (BitVec 8) :=
  match e with
  | .call k => s.net.toTty k
  | _ => []

/-- What the FPGA receives. -/
def received : List (BitVec 8) :=
  match e with
  | .clock i => ConsoleMux.received (s.portInput i)
  | _ => []

/-- What the transmitter of the FPGA takes. -/
def transmitted : List (BitVec 8) :=
  match e with
  | .clock i => s.port.transmitted (s.portInput i)
  | _ => []

/-- What gets to the host. -/
def landed : List (BitVec 8) :=
  match e with
  | .arrive => s.up.take 1
  | _ => []

/-- What is read from the serial port. -/
def fetchedTty : List (BitVec 8) :=
  match e with
  | .call k => s.net.fetchedTty k
  | _ => []

end Observed

variable {s : Channels} {e : Event}

/-! ### One event of one stage -/

theorem cmd_step :
  s.fetchedCmd e ++ (s.step e).net.cmd = s.net.cmd ++ e.arrivedCmd
  := by
  cases e with
  | call k => simpa [fetchedCmd, Event.arrivedCmd, step] using Netuart.fetchedCmd_step
  | _ => simp [fetchedCmd, Event.arrivedCmd, step, Netuart.receive]

theorem con_step :
  s.fetchedCon e ++ (s.step e).net.con = s.net.con ++ e.arrivedCon
  := by
  cases e with
  | call k => simpa [fetchedCon, Event.arrivedCon, step] using Netuart.fetchedCon_step
  | _ => simp [fetchedCon, Event.arrivedCon, step, Netuart.receive]

/-- What the server is to write to the serial port. -/
def forwarded (s : Channels) (e : Event) : List (BitVec 8) :=
  (s.fetchedCmd e).map Netuart.masked ++ s.fetchedCon e

theorem sending_step :
  s.written e ++ (s.step e).net.sending = s.net.sending ++ s.forwarded e
  := by
  cases e with
  | call k =>
      simp only [written, forwarded, fetchedCmd, fetchedCon, step]
      rw [Netuart.sending_step, List.append_assoc]
  | _ => simp [written, forwarded, fetchedCmd, fetchedCon, step, Netuart.receive, Netuart.sending]

theorem down_step :
  s.received e ++ (s.step e).down = s.down ++ s.written e
  := by
  cases e with
  | clock i =>
      simp only [written, List.append_nil]
      apply received_step
  | _ => simp [received, written, step]

/-- What the console is to get. -/
theorem delivered_step :
  s.delivered e ++ (s.step e).port.delivered
    = s.port.delivered ++ (texts (s.received e)).map (·.extractLsb' 0 7)
  := by
  cases e with
  | clock i =>
      simp only [delivered, received, step]
      rw [ConsoleMux.delivered_step]
  | _ => simp [delivered, received, step]

/-- What the port of the FPGA takes. -/
def taken (s : Channels) (e : Event) : List (BitVec 8) :=
  (s.replied e).map ConsoleMux.busByte ++ (s.printed e).map ConsoleMux.consoleByte

theorem held_step :
  s.transmitted e ++ (s.step e).port.held = s.port.held ++ s.taken e
  := by
  cases e with
  | clock i =>
      simp only [transmitted, taken, replied, printed, step]
      rw [ConsoleMux.held_step, List.append_assoc]
  | _ => simp [transmitted, taken, replied, printed, step]

theorem landed_step :
  s.landed e ++ (s.step e).up = s.up ++ s.transmitted e
  := by
  cases e with
  | arrive => simpa [landed, transmitted, step] using up_step
  | _ => simp [landed, transmitted, step]

theorem tty_step :
  s.fetchedTty e ++ (s.step e).net.tty = s.net.tty ++ s.landed e
  := by
  cases e with
  | call k => simpa [fetchedTty, landed, step] using Netuart.fetchedTty_step
  | _ => simp [fetchedTty, landed, step, Netuart.receive]

theorem writingCmd_step :
  s.sentCmd e ++ (s.step e).net.writingCmd = s.net.writingCmd ++ commands (s.fetchedTty e)
  := by
  cases e with
  | call k => simpa [sentCmd, fetchedTty, step] using Netuart.writingCmd_step
  | _ => simp [sentCmd, fetchedTty, step, Netuart.receive, Netuart.writingCmd]

theorem writingCon_step :
  s.sentCon e ++ (s.step e).net.writingCon = s.net.writingCon ++ texts (s.fetchedTty e)
  := by
  cases e with
  | call k => simpa [sentCon, fetchedTty, step] using Netuart.writingCon_step
  | _ => simp [sentCon, fetchedTty, step, Netuart.receive, Netuart.writingCon]

/-! The two kinds of bytes at the stages that take them together. -/

theorem Inv.commands_forwarded (h : s.Inv) :
  commands (s.forwarded e) = s.fetchedCmd e
  := by
  cases e with
  | call k =>
      simp only [forwarded, fetchedCmd, fetchedCon, commands_append]
      rw [Netuart.commands_masked fun b hb => h.net.fetchedCmd hb,
        commands_of_texts fun b hb => (h.net.fetchedCon hb).1, List.append_nil]
  | _ => rfl

theorem Inv.texts_forwarded (h : s.Inv) :
  texts (s.forwarded e) = s.fetchedCon e
  := by
  cases e with
  | call k =>
      simp only [forwarded, fetchedCmd, fetchedCon, texts_append]
      rw [Netuart.texts_masked, texts_of_texts fun b hb => (h.net.fetchedCon hb).1,
        List.nil_append]
  | _ => rfl

theorem Inv.commands_taken (h : s.Inv) :
  commands (s.taken e) = s.replied e
  := by
  cases e with
  | clock i =>
      simp only [taken, replied, printed, commands_append]
      rw [ConsoleMux.commands_busBytes fun c hc => h.plain.replied hc,
        commands_of_texts fun b hb => ConsoleMux.not_isCommand_of_mem_consoleBytes hb,
        List.append_nil]
  | _ => rfl

theorem texts_taken :
  texts (s.taken e) = (s.printed e).map ConsoleMux.consoleByte
  := by
  rw [taken, texts_append, ConsoleMux.texts_busBytes,
    texts_of_texts fun b hb => ConsoleMux.not_isCommand_of_mem_consoleBytes hb, List.nil_append]

theorem commands_received :
  commands (s.received e) = s.decoded e
  := by
  cases e with
  | clock i => rw [received, decoded, ConsoleMux.decoded_eq]
  | _ => rfl

/-! ### The server goes round -/

/-- The event leaves the server no more calls until it looks at the serial port, and fewer
where the call gets something done. -/
def Advances (s : Channels) (e : Event) : Prop :=
  (s.step e).net.callsLeft ≤ s.net.callsLeft
    ∧ ∀ k, 0 < k → e = .call k → (s.step e).net.callsLeft < s.net.callsLeft

theorem advances_of_call (h : ∀ k, e = .call k → (s.net.step k).callsLeft ≤ s.net.callsLeft
      ∧ (0 < k → (s.net.step k).callsLeft < s.net.callsLeft)) :
  s.Advances e
  := by
  cases e with
  | call k =>
      obtain ⟨hle, hlt⟩ := h k rfl
      constructor
      · apply hle
      · rintro _ hk ⟨⟩
        apply hlt hk
  | _ =>
      constructor
      · apply Nat.le_refl
      · rintro k - ⟨⟩

/-- Where the serial port is not looked at, the server goes on. -/
theorem Inv.advances (h : s.Inv) (hlooks : s.net.looks = false) :
  s.Advances e
  := by
  apply advances_of_call
  intro k _
  apply Netuart.callsLeft_step h.net.running hlooks

theorem Inv.pastTty_step (h : s.Inv) (hpast : s.net.PastTty) :
  (s.step e).net.PastTty ∨ (s.step e).net.phase = .poll
  := by
  cases e with
  | call k => apply h.net.pastTty_step hpast
  | _ => apply Or.inl hpast

theorem Inv.seenCmd_step (h : s.Inv) (he : e.Carriable) (hseen : s.net.SeenCmd)
    (hcmd : s.net.cmd ≠ []) (hnot : s.fetchedCmd e = []) :
  (s.step e).net.SeenCmd ∧ (s.net.PastTty → (s.step e).net.PastTty)
  := by
  cases e with
  | call k => apply hseen.step hcmd (h.step he).net.running hnot
  | _ => apply And.intro hseen id

theorem Inv.seenCon_step (h : s.Inv) (he : e.Carriable) (hseen : s.net.SeenCon)
    (hcon : s.net.con ≠ []) (hnot : s.fetchedCon e = []) :
  (s.step e).net.SeenCon ∧ (s.net.PastTty → (s.step e).net.PastTty)
  := by
  cases e with
  | call k => apply hseen.step hcon (h.step he).net.running hnot
  | _ => apply And.intro hseen id

section Runs

variable {s₀ : Channels} {ev : ℕ → Event}

/-- The server does not go on for ever without looking at the serial port. -/
theorem Fair.not_advances_forever (h : Fair ev) (n : ℕ) :
  ¬ ∀ m, n ≤ m → (run step s₀ ev m).Advances (ev m)
  := by
  intro hadvances
  have hnever : ∃ m, n ≤ m ∧ False := by
    apply eventually_of_fair_measure h.calls (fun m => (run step s₀ ev m).net.callsLeft)
    · intro m hm _
      apply (hadvances m hm).1
    · rintro m hm - ⟨k, hk, hcall⟩
      apply (hadvances m hm).2 k hk hcall
  obtain ⟨_, -, hfalse⟩ := hnever
  apply hfalse

/-- A socket that holds something is read, if it is among those that are read once `poll`
has found something there. -/
theorem Fair.leaves_of_seen (h : Fair ev) (h₀ : s₀.Initial) (hev : ∀ n, (ev n).Carriable)
    (hkeeps : KeepsUp (run step s₀ ev) ev) {enter leave : ℕ → List (BitVec 8)}
    (held : Netuart → List (BitVec 8)) (Seen : Netuart → Prop)
    (hcons : Conserves (fun n => held (run step s₀ ev n).net) enter leave)
    (hsocket : ∀ s, held s ≠ [] → s.cmd ≠ [] ∨ s.con ≠ [])
    (hpoll : ∀ s : Netuart, s.phase = .poll → Seen s)
    (hseen : ∀ n, Seen (run step s₀ ev n).net → held (run step s₀ ev n).net ≠ [] →
      leave n = [] → Seen (run step s₀ ev (n + 1)).net
        ∧ ((run step s₀ ev n).net.PastTty → (run step s₀ ev (n + 1)).net.PastTty)) (n : ℕ)
    (hheld : held (run step s₀ ev n).net ≠ []) :
  ∃ m, n ≤ m ∧ leave m ≠ []
  := by
  by_contra hnever
  push Not at hnever
  have hholds := fun m (hm : n ≤ m) => hcons.held_ne_nil hheld hnever hm
  have hinv := h₀.inv_run hev
  have hempty : ∀ m, n ≤ m → ∃ j, m ≤ j ∧ (run step s₀ ev (j + 1)).net.PastTty := by
    intro m hm
    obtain ⟨j, hj, ⟨k, hcall⟩, hlooks, htty⟩ := hkeeps m
    use j, hj
    rw [run_succ, hcall]
    apply (hinv j).net.pastTty_of_empty hlooks htty
    apply hsocket _ (hholds j (hm.trans hj))
  have hnot : ∀ m, ¬ ∀ j, m ≤ j → (run step s₀ ev j).net.PastTty := by
    intro m hpast
    apply h.not_advances_forever m
    intro j hj
    apply (hinv j).advances (hpast j hj).looks
  -- The loop over the serial port is left, and then `poll` comes.
  obtain ⟨j, hj, hpast⟩ := hempty n (Nat.le_refl n)
  obtain ⟨p, hp, hphase⟩ : ∃ p, j + 1 ≤ p ∧ (run step s₀ ev p).net.phase = .poll := by
    by_contra hno
    push Not at hno
    apply hnot (j + 1)
    intro m hm
    induction hm with
    | refl => apply hpast
    | @step m hm ih =>
        rcases (hinv m).pastTty_step ih with hpast' | hphase
        · apply hpast'
        · cases hno (m + 1) (Nat.le_succ_of_le hm) hphase
  -- It finds the socket, which stays marked until it is read.
  have hmarked : ∀ m, p ≤ m → Seen (run step s₀ ev m).net := by
    intro m hm
    induction hm with
    | refl => apply hpoll _ hphase
    | @step m hm ih =>
        have hm' : n ≤ m := by
          have : p ≤ m := hm
          omega
        apply (hseen m ih (hholds m hm') (hnever m hm')).1
  -- So when the loop is left again, the server does not get to `poll` before it is read.
  obtain ⟨q, hq, hpast'⟩ := hempty p (by omega)
  apply hnot (q + 1)
  intro m hm
  induction hm with
  | refl => apply hpast'
  | @step m hm ih =>
      have hm' : q + 1 ≤ m := hm
      apply (hseen m (hmarked m (by omega)) (hholds m (by omega)) (hnever m (by omega))).2 ih

/-! ### Everything a stage takes in leaves it -/

theorem Fair.fetchesCmd (h : Fair ev) (h₀ : s₀.Initial) (hev : ∀ n, (ev n).Carriable)
    (hkeeps : KeepsUp (run step s₀ ev) ev) :
  Delivers (fun n => (ev n).arrivedCmd) (fun n => (run step s₀ ev n).fetchedCmd (ev n))
  := by
  have hcons : Conserves (fun n => (run step s₀ ev n).net.cmd) (fun n => (ev n).arrivedCmd)
      (fun n => (run step s₀ ev n).fetchedCmd (ev n)) := fun n => cmd_step
  apply hcons.delivers h₀.cmd
  apply h.leaves_of_seen h₀ hev hkeeps Netuart.cmd Netuart.SeenCmd hcons
  · intro s hs
    apply Or.inl hs
  · intro s hphase
    simp [Netuart.SeenCmd, hphase]
  · intro n hseen hcmd hnot
    apply (h₀.inv_run hev n).seenCmd_step (hev n) hseen hcmd hnot

theorem Fair.fetchesCon (h : Fair ev) (h₀ : s₀.Initial) (hev : ∀ n, (ev n).Carriable)
    (hkeeps : KeepsUp (run step s₀ ev) ev) :
  Delivers (fun n => (ev n).arrivedCon) (fun n => (run step s₀ ev n).fetchedCon (ev n))
  := by
  have hcons : Conserves (fun n => (run step s₀ ev n).net.con) (fun n => (ev n).arrivedCon)
      (fun n => (run step s₀ ev n).fetchedCon (ev n)) := fun n => con_step
  apply hcons.delivers h₀.con
  apply h.leaves_of_seen h₀ hev hkeeps Netuart.con Netuart.SeenCon hcons
  · intro s hs
    apply Or.inr hs
  · intro s hphase
    simp [Netuart.SeenCon, hphase]
  · intro n hseen hcon hnot
    apply (h₀.inv_run hev n).seenCon_step (hev n) hseen hcon hnot

theorem Fair.sends (h : Fair ev) (h₀ : s₀.Initial) :
  Delivers (fun n => (run step s₀ ev n).forwarded (ev n))
    (fun n => (run step s₀ ev n).written (ev n))
  := by
  have hcons : Conserves (fun n => (run step s₀ ev n).net.sending)
      (fun n => (run step s₀ ev n).forwarded (ev n))
      (fun n => (run step s₀ ev n).written (ev n)) := fun n => sending_step
  apply hcons.delivers_of_fair (by simp [Netuart.sending, h₀.phase]) h.calls
  rintro n hheld ⟨k, hk, hcall⟩
  rw [hcall]
  apply Netuart.toTty_ne_nil hheld hk

theorem Fair.gets (h : Fair ev) (h₀ : s₀.Initial) :
  Delivers (fun n => (run step s₀ ev n).written (ev n))
    (fun n => (run step s₀ ev n).received (ev n))
  := by
  have hcons : Conserves (fun n => (run step s₀ ev n).down)
      (fun n => (run step s₀ ev n).written (ev n))
      (fun n => (run step s₀ ev n).received (ev n)) := fun n => down_step
  apply hcons.delivers_of_fair h₀.down h.receives
  rintro n hheld ⟨i, hclock, hrx⟩
  obtain ⟨b, bs, hdown⟩ := List.exists_cons_of_ne_nil hheld
  simp [hclock, received, ConsoleMux.received, portInput, hdown, hrx]

theorem Fair.shows (h : Fair ev) (h₀ : s₀.Initial) :
  Delivers (fun n => (texts ((run step s₀ ev n).received (ev n))).map (·.extractLsb' 0 7))
    (fun n => (run step s₀ ev n).delivered (ev n))
  := by
  have hcons : Conserves (fun n => (run step s₀ ev n).port.delivered)
      (fun n => (texts ((run step s₀ ev n).received (ev n))).map (·.extractLsb' 0 7))
      (fun n => (run step s₀ ev n).delivered (ev n)) := fun n => delivered_step
  apply hcons.delivers_of_fair (by simp [ConsoleMux.delivered, h₀.oConsoleStb]) h.receives
  rintro n hheld ⟨i, hclock, -⟩
  rw [hclock]
  apply hheld

theorem Fair.passes (h : Fair ev) (h₀ : s₀.Initial) :
  Delivers (fun n => (run step s₀ ev n).taken (ev n))
    (fun n => (run step s₀ ev n).transmitted (ev n))
  := by
  have hcons : Conserves (fun n => (run step s₀ ev n).port.held)
      (fun n => (run step s₀ ev n).taken (ev n))
      (fun n => (run step s₀ ev n).transmitted (ev n)) := fun n => held_step
  apply hcons.delivers_of_fair (by simp [ConsoleMux.held, h₀.psFull]) h.transmits
  rintro n hheld ⟨i, hclock, htx⟩
  rw [hclock]
  apply ConsoleMux.transmitted_ne_nil hheld
  rw [portInput_iTxBusy, htx]

theorem Fair.lands (h : Fair ev) (h₀ : s₀.Initial) :
  Delivers (fun n => (run step s₀ ev n).transmitted (ev n))
    (fun n => (run step s₀ ev n).landed (ev n))
  := by
  have hcons : Conserves (fun n => (run step s₀ ev n).up)
      (fun n => (run step s₀ ev n).transmitted (ev n))
      (fun n => (run step s₀ ev n).landed (ev n)) := fun n => landed_step
  apply hcons.delivers_of_fair h₀.up h.arrives
  intro n hheld harrive
  simp [harrive, landed, hheld]

theorem Fair.fetchesTty (h : Fair ev) (h₀ : s₀.Initial) (hev : ∀ n, (ev n).Carriable) :
  Delivers (fun n => (run step s₀ ev n).landed (ev n))
    (fun n => (run step s₀ ev n).fetchedTty (ev n))
  := by
  have hcons : Conserves (fun n => (run step s₀ ev n).net.tty)
      (fun n => (run step s₀ ev n).landed (ev n))
      (fun n => (run step s₀ ev n).fetchedTty (ev n)) := fun n => tty_step
  apply hcons.delivers h₀.tty
  intro n hheld
  by_contra hnever
  push Not at hnever
  apply h.not_advances_forever n
  intro m hm
  apply advances_of_call
  intro k hcall
  have hnot := hnever m hm
  rw [hcall] at hnot
  apply Netuart.callsLeft_step_of_tty (h₀.inv_run hev m).net.running
    (hcons.held_ne_nil hheld hnever hm) hnot

theorem Fair.sendsCmd (h : Fair ev) (h₀ : s₀.Initial) :
  Delivers (fun n => commands ((run step s₀ ev n).fetchedTty (ev n)))
    (fun n => (run step s₀ ev n).sentCmd (ev n))
  := by
  have hcons : Conserves (fun n => (run step s₀ ev n).net.writingCmd)
      (fun n => commands ((run step s₀ ev n).fetchedTty (ev n)))
      (fun n => (run step s₀ ev n).sentCmd (ev n)) := fun n => writingCmd_step
  apply hcons.delivers_of_fair (by simp [Netuart.writingCmd, h₀.phase]) h.calls
  rintro n hheld ⟨k, hk, hcall⟩
  rw [hcall]
  apply Netuart.toCmd_ne_nil hheld hk

theorem Fair.sendsCon (h : Fair ev) (h₀ : s₀.Initial) (hev : ∀ n, (ev n).Carriable) :
  Delivers (fun n => texts ((run step s₀ ev n).fetchedTty (ev n)))
    (fun n => (run step s₀ ev n).sentCon (ev n))
  := by
  have hcons : Conserves (fun n => (run step s₀ ev n).net.writingCon)
      (fun n => texts ((run step s₀ ev n).fetchedTty (ev n)))
      (fun n => (run step s₀ ev n).sentCon (ev n)) := fun n => writingCon_step
  apply hcons.delivers (by simp [Netuart.writingCon, h₀.phase])
  intro n hheld
  by_contra hnever
  push Not at hnever
  apply h.not_advances_forever n
  intro m hm
  apply (h₀.inv_run hev m).advances
  apply Netuart.looks_of_writingCon (hcons.held_ne_nil hheld hnever hm)

/-! ### The four ways -/

/-! ### The four ways -/

theorem Fair.toSockets (h : Fair ev) (h₀ : s₀.Initial) (hev : ∀ n, (ev n).Carriable) :
  Delivers (fun n => (run step s₀ ev n).replied (ev n))
      (fun n => (run step s₀ ev n).sentCmd (ev n))
    ∧ Delivers (fun n => ((run step s₀ ev n).printed (ev n)).map ConsoleMux.consoleByte)
        (fun n => (run step s₀ ev n).sentCon (ev n))
  := by
  have hway := ((h.passes h₀).trans (h.lands h₀)).trans (h.fetchesTty h₀ hev)
  constructor
  · have hcommands := (hway.filter isCommand).map strip
    have htaken : (fun n => commands ((run step s₀ ev n).taken (ev n)))
        = fun n => (run step s₀ ev n).replied (ev n) := by
      funext n
      apply (h₀.inv_run hev n).commands_taken
    rw [← htaken]
    apply Delivers.trans hcommands (h.sendsCmd h₀)
  · have htexts := hway.filter fun b => !isCommand b
    have htaken : (fun n => texts ((run step s₀ ev n).taken (ev n)))
        = fun n => ((run step s₀ ev n).printed (ev n)).map ConsoleMux.consoleByte := by
      funext n
      apply texts_taken
    rw [← htaken]
    apply Delivers.trans htexts (h.sendsCon h₀ hev)

theorem Fair.toFpga (h : Fair ev) (h₀ : s₀.Initial) (hev : ∀ n, (ev n).Carriable)
    (hkeeps : KeepsUp (run step s₀ ev) ev) :
  Delivers (fun n => (ev n).arrivedCmd) (fun n => (run step s₀ ev n).decoded (ev n))
    ∧ Delivers (fun n => ((ev n).arrivedCon).map (·.extractLsb' 0 7))
        (fun n => (run step s₀ ev n).delivered (ev n))
  := by
  have hway := (h.sends h₀).trans (h.gets h₀)
  constructor
  · have hcommands := (hway.filter isCommand).map strip
    have hforwarded : (fun n => commands ((run step s₀ ev n).forwarded (ev n)))
        = fun n => (run step s₀ ev n).fetchedCmd (ev n) := by
      funext n
      apply (h₀.inv_run hev n).commands_forwarded
    have hdecoded : (fun n => commands ((run step s₀ ev n).received (ev n)))
        = fun n => (run step s₀ ev n).decoded (ev n) := by
      funext n
      apply commands_received
    apply Delivers.trans (h.fetchesCmd h₀ hev hkeeps)
    rw [← hforwarded, ← hdecoded]
    apply hcommands
  · have htexts := hway.filter fun b => !isCommand b
    have hforwarded : (fun n => texts ((run step s₀ ev n).forwarded (ev n)))
        = fun n => (run step s₀ ev n).fetchedCon (ev n) := by
      funext n
      apply (h₀.inv_run hev n).texts_forwarded
    have hfetched := h.fetchesCon h₀ hev hkeeps
    rw [← hforwarded] at hfetched
    apply Delivers.trans _ (h.shows h₀)
    apply (hfetched.trans htexts).map

/-- Whatever happens in whatever order, as long as only bytes arrive that the sockets can
carry, each byte and each character gets to where it belongs, in order, and to nowhere
else; and all of them do, if everyone goes on and, for those that come from the sockets, the
server keeps up with the serial port. -/
theorem channels_carried (h₀ : s₀.Initial) (hev : ∀ n, (ev n).Carriable) :
  (∀ n, Carried (run step s₀ ev) ev n)
    ∧ (Fair ev →
      Delivers (fun n => (run step s₀ ev n).replied (ev n))
          (fun n => (run step s₀ ev n).sentCmd (ev n))
        ∧ Delivers (fun n => ((run step s₀ ev n).printed (ev n)).map ConsoleMux.consoleByte)
          (fun n => (run step s₀ ev n).sentCon (ev n)))
    ∧ (Fair ev → KeepsUp (run step s₀ ev) ev →
      Delivers (fun n => (ev n).arrivedCmd) (fun n => (run step s₀ ev n).decoded (ev n))
        ∧ Delivers (fun n => ((ev n).arrivedCon).map (·.extractLsb' 0 7))
          (fun n => (run step s₀ ev n).delivered (ev n)))
  := by
  refine ⟨?_, ?_, ?_⟩
  · apply h₀.carried hev
  · intro h
    apply h.toSockets h₀ hev
  · intro h hkeeps
    apply h.toFpga h₀ hev hkeeps

end Runs

/-! ### Two runs -/

/-- Both sockets are connected, and the FPGA is as at power up. -/
def quiet : Channels where
  net := { phase := .poll, tty := [], cmd := [], con := [] }
  down := []
  up := []
  port :=
    { oConsoleStb := false, oConsoleData := 0, cmdPortActive := false, psFull := false,
      psData := 0, mkbytes := Wbusixchar.initial }

theorem quiet_initial :
  quiet.Initial
  := by constructor <;> rfl

/-- A clock at which a byte is received, if there is one, and nothing else happens. -/
def receiving : ConsoleMux.Input where
  iRxStb := true
  iRxData := 0
  lnStb := false
  lnBits := 0
  iConsoleStb := false
  iConsoleData := 0
  iTxBusy := false

/-- Everyone goes on in turn. -/
def inTurn (n : ℕ) : Event :=
  match n % 3 with
  | 0 => .call 1
  | 1 => .arrive
  | _ => .clock receiving

/-- The events given, and then everyone in turn. -/
def sequence (evs : List Event) (n : ℕ) : Event := evs.getD n (inTurn n)

theorem sequence_of_le {evs : List Event} {n : ℕ} (h : evs.length ≤ n) :
  sequence evs n = inTurn n
  := by rw [sequence, List.getD_eq_getElem?_getD, List.getElem?_eq_none h, Option.getD_none]

theorem carriable_sequence {evs : List Event} (h : ∀ e ∈ evs, e.Carriable) (n : ℕ) :
  (sequence evs n).Carriable
  := by
  rw [sequence, List.getD_eq_getElem?_getD]
  cases he : evs[n]? with
  | none =>
      simp only [Option.getD_none, inTurn]
      split <;> trivial
  | some e => apply h e (List.mem_of_getElem? he)

theorem fair_sequence (evs : List Event) :
  Fair (sequence evs)
  := by
  have hturn : ∀ n j, j < 3 → ∃ m, n ≤ m ∧ m % 3 = j ∧ sequence evs m = inTurn m := by
    intro n j hj
    use 3 * (n + evs.length) + j
    have hlong : evs.length ≤ 3 * (n + evs.length) + j := by omega
    refine ⟨by omega, by omega, sequence_of_le hlong⟩
  constructor
  · intro n
    obtain ⟨m, hm, hmod, heq⟩ := hturn n 0 (by decide)
    use m, hm, 1, by decide
    simp [heq, inTurn, hmod]
  · intro n
    obtain ⟨m, hm, hmod, heq⟩ := hturn n 1 (by decide)
    use m, hm
    simp [heq, inTurn, hmod]
  · intro n
    obtain ⟨m, hm, hmod, heq⟩ := hturn n 2 (by decide)
    use m, hm, receiving
    simp [heq, inTurn, hmod, receiving]
  · intro n
    obtain ⟨m, hm, hmod, heq⟩ := hturn n 2 (by decide)
    use m, hm, receiving
    simp [heq, inTurn, hmod, receiving]

/-- Once nothing is on its way, the server finds nothing on the serial port. -/
theorem keepsUp_sequence {evs : List Event} {s₀ s : Channels} {n₀ : ℕ} (hlong : evs.length ≤ n₀)
    (hs : run step s₀ (sequence evs) n₀ = s) (hpoll : s.net.phase = .poll) (htty : s.net.tty = [])
    (hturn : ∀ n, s.step (inTurn n) = s) :
  KeepsUp (run step s₀ (sequence evs)) (sequence evs)
  := by
  have hstays : ∀ d, run step s₀ (sequence evs) (n₀ + d) = s := by
    intro d
    induction d with
    | zero => apply hs
    | succ d ih => rw [← Nat.add_assoc, run_succ, ih, sequence_of_le (by omega), hturn]
  intro n
  have hthere : n₀ + (2 * n₀ + 3 * n) = 3 * (n₀ + n) := by omega
  use n₀ + (2 * n₀ + 3 * n), by omega
  rw [hstays]
  refine ⟨⟨1, ?_⟩, by simp [Netuart.looks, hpoll], htty⟩
  rw [sequence_of_le (by omega), hthere]
  simp [inTurn]

/-- A clock at which the console and the debug bus both have something to say. -/
def answering : ConsoleMux.Input where
  iRxStb := true
  iRxData := 0
  lnStb := true
  lnBits := 5
  iConsoleStb := true
  iConsoleData := 0x79
  iTxBusy := false

/-- A letter arrives at each socket and gets to the FPGA, which answers on both channels. -/
def letters : List Event := [.cmd 0x52, .con 0x78, .call 0, .call 1, .call 1, .call 0, .call 1,
  .call 1, .call 0, .clock receiving, .clock receiving, .clock answering, .clock answering,
  .clock receiving, .clock receiving, .arrive, .arrive, .call 0, .call 2, .call 1, .call 0,
  .call 1, .call 0, .call 0, .call 0, .call 0]

/-- Nothing is on its way, and the command port is active. -/
def settled : Channels where
  net := { phase := .poll, tty := [], cmd := [], con := [] }
  down := []
  up := []
  port :=
    { oConsoleStb := false, oConsoleData := 0, cmdPortActive := true, psFull := false,
      psData := 0xb5, mkbytes := { oStb := false, oChar := 0x30 } }

theorem settled_step (n : ℕ) :
  settled.step (inTurn n) = settled
  := by
  unfold inTurn
  split <;> rfl

theorem run_letters :
  run step quiet (sequence letters) 26 = settled
  := by rfl

/-- The letter `R` for the debug bus and the letter `x` for the console arrive, and both
answer. -/
theorem channels_carried_letters :
  let ev := sequence letters
  let x := run step quiet ev
  (∀ n, Carried x ev n)
    ∧ Delivers (fun n => (x n).replied (ev n)) (fun n => (x n).sentCmd (ev n))
    ∧ Delivers (fun n => ((x n).printed (ev n)).map ConsoleMux.consoleByte)
        (fun n => (x n).sentCon (ev n))
    ∧ Delivers (fun n => (ev n).arrivedCmd) (fun n => (x n).decoded (ev n))
    ∧ Delivers (fun n => ((ev n).arrivedCon).map (·.extractLsb' 0 7))
        (fun n => (x n).delivered (ev n))
    ∧ log (fun k => (x k).decoded (ev k)) 26 = [0x52]
    ∧ log (fun k => (x k).delivered (ev k)) 26 = [0x78]
    ∧ log (fun k => (x k).sentCmd (ev k)) 26 = [0x35]
    ∧ log (fun k => (x k).sentCon (ev k)) 26 = [0x79]
  := by
  have hev : ∀ n, (sequence letters n).Carriable := by
    apply carriable_sequence
    simp [letters, Event.Carriable, Netuart.CmdByte, Netuart.ConByte, isCommand]
  have hkeeps : KeepsUp (run step quiet (sequence letters)) (sequence letters) := by
    apply keepsUp_sequence (by decide) run_letters rfl rfl settled_step
  obtain ⟨hcarried, hup, hdown⟩ := channels_carried quiet_initial hev
  obtain ⟨hreplied, hprinted⟩ := hup (fair_sequence letters)
  obtain ⟨hcmd, hcon⟩ := hdown (fair_sequence letters) hkeeps
  refine ⟨hcarried, hreplied, hprinted, hcmd, hcon, by decide, by decide, by decide, by decide⟩

/-- A byte with its top bit set that arrives at the console socket is decoded as a command
of the debug bus. -/
theorem console_byte_decoded :
  let ev := sequence [.con 0xc1, .call 0, .call 0, .call 1, .call 1, .clock receiving]
  quiet.Initial
    ∧ log (fun k => (ev k).arrivedCmd) 6 = []
    ∧ log (fun k => (run step quiet ev k).decoded (ev k)) 6 = [0x41]
    ∧ ¬ Carried (run step quiet ev) ev 6
  := by
  intro ev
  have harrived : log (fun k => (ev k).arrivedCmd) 6 = [] := by decide
  have hdecoded : log (fun k => (run step quiet ev k).decoded (ev k)) 6 = [0x41] := by decide
  refine ⟨quiet_initial, harrived, hdecoded, ?_⟩
  intro hcarried
  have heq := hcarried.decoded
  rw [harrived, hdecoded] at heq
  cases heq

end Channels

end ZBasic
