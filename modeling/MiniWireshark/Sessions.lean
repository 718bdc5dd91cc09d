import MiniWireshark.Transit

/-!
# Session isolation (`Pcap.cpp:223-257`, `:366-437`)

`create_Th` empties the lists but neither waits for earlier workers nor marks their packets. The
lists show one session in the runs that start a worker with no packet on its way and in which
only the last worker accepts packets.

| here | meaning |
| --- | --- |
| `Act.isolated h s`  | the step keeps to those two rules |
| `Sys.OnlyFrom s w`  | every packet stored, queued or in a callback is of worker `w` |
-/

namespace MiniWireshark

variable {h : Host} {s s' : Sys} {a : Act}

/-- A worker is started with no packet on its way, and only the last worker accepts packets. -/
def Act.isolated (h : Host) (s : Sys) : Act → Prop
  | .createTh nicName _ => nicName.isEmpty = false → s.NonePending
  | .worker w a => s.taken h (.worker w a) ≠ [] → w + 1 = s.workers.length
  | _ => True

instance (h : Host) (s : Sys) (a : Act) : Decidable (a.isolated h s) :=
  match a with
  | .createTh nicName _ => inferInstanceAs (Decidable (nicName.isEmpty = false → s.NonePending))
  | .worker w a => inferInstanceAs (Decidable (s.taken h (.worker w a) ≠ [] → w + 1 = s.workers.length))
  | .stopTh | .resetMd | .pcapFileRead _ | .sort .. | .deliver => isTrue trivial

/-- Every packet stored or on its way is of worker `w`. -/
def Sys.OnlyFrom (s : Sys) (w : Nat) : Prop := (∀ r ∈ s.rows, r.src = .live w) ∧ ∀ e ∈ s.entries, e.src = .live w

instance (s : Sys) (w : Nat) : Decidable (s.OnlyFrom w) := inferInstanceAs (Decidable (_ ∧ _))

/-- While the last worker started is the session, only its packets are stored or on their way. -/
structure Sys.SessionInv (s : Sys) : Prop where
  last : ∀ w, s.session = some (.live w) → w + 1 = s.workers.length
  only : ∀ w, s.session = some (.live w) → s.OnlyFrom w

theorem Sys.SessionInv.of_not_live (hn : ∀ w, s.session ≠ some (.live w)) : s.SessionInv :=
  ⟨fun w hw => absurd hw (hn w), fun w hw => absurd hw (hn w)⟩

theorem Sys.SessionInv.step (hi : s.SessionInv) (hc : a.isolated h s) (hs : Sys.step h s a = some s') :
    s'.SessionInv := by
  -- a step that leaves session and worker count, and takes only packets of the last worker
  have hkeep (hsess : s'.session = s.session) (hlen : s'.workers.length = s.workers.length)
      (htaken : ∀ w, s.session = some (.live w) → ∀ p ∈ s.taken h a, p.1.src = .live w ∧ p.2.src = .live w) :
      s'.SessionInv := by
    refine ⟨fun w hw => ?_, fun w hw => ?_⟩
    · rw [hlen]
      exact hi.last w (hsess ▸ hw)
    · rw [hsess] at hw
      exact Sys.OnlyOf.step (hi.only w hw) hs (htaken w hw)
  have hnil (ht : s.taken h a = []) : ∀ w, s.session = some (.live w) → ∀ p ∈ s.taken h a,
      p.1.src = .live w ∧ p.2.src = .live w := by
    rw [ht]
    exact fun _ _ p hp => absurd hp List.not_mem_nil
  cases a with
  | createTh nicName ft =>
    cases hn : nicName.isEmpty with
    | true =>
      cases hs
      rw [s.createTh_of_empty ft hn]
      exact hi
    | false =>
      obtain ⟨hr, he⟩ := (Sys.step_flow hs).1 (by simp [Act.clears, hn])
      obtain ⟨hpr, hpe⟩ := hc hn
      cases hs
      rw [s.createTh_of_name ft hn] at hr he ⊢
      refine ⟨fun w hw => ?_, fun w _ => ?_⟩
      · cases hw
        simp
      · exact Sys.OnlyOf.of_nil (hr.trans hpr) (he.trans hpe)
  | stopTh =>
    refine hkeep ?_ ?_ (hnil rfl) <;> cases hs <;> unfold Sys.stopTh <;> split <;> simp
  | resetMd =>
    refine hkeep ?_ ?_ (hnil rfl) <;> cases hs <;> unfold Sys.resetMd <;> split <;> simp
  | pcapFileRead file =>
    obtain ⟨_, _, _, _, hsess⟩ := Sys.pcapFileRead_stored hs
    have hw := (Sys.pcapFileRead_sameControl hs).workers
    by_cases ht : s.taken h (.pcapFileRead file) = []
    · rw [if_pos ht] at hsess
      exact hkeep hsess.2 (by rw [hw]) (hnil ht)
    · rw [if_neg ht] at hsess
      exact .of_not_live fun w hw => by rw [hsess.2] at hw; cases hw
  | sort col sorted =>
    obtain ⟨md, _, rfl⟩ := Sys.sort_cases hs
    exact hkeep rfl rfl (hnil rfl)
  | deliver =>
    obtain ⟨m, q, hq, rfl⟩ := Sys.deliver_cases hs
    refine hkeep ?_ ?_ (hnil rfl) <;> cases m <;> simp [Sys.call]
  | worker w a =>
    obtain ⟨wk, wk', ms, hwk, hst, he⟩ := Sys.work_step hs
    refine hkeep (by rw [he]) (by rw [he]; simp) fun v hv p hp => ?_
    have hvw : v = w := by
      have h1 := hi.last v hv
      have h2 := hc (List.ne_nil_of_mem hp)
      omega
    rw [hvw]
    exact Sys.src_taken hp

/-- **Sessions are isolated** in every run that starts a worker with no packet on its way and in
which only the last worker accepts packets: until the next session, only packets of the worker
that `create_Th` started are stored, queued or in a callback. -/
theorem session_isolated {acts : List Act} (hr : Lts.run (Sys.step h) Sys.init acts = some s)
    (hc : Lts.Along (Sys.step h) (fun s a => a.isolated h s) Sys.init acts) {w : Nat}
    (hw : s.session = some (.live w)) : s.OnlyFrom w := by
  have hinit : Sys.init.SessionInv := .of_not_live nofun
  exact (Lts.run_invariant (fun _ _ _ hi hc hs => Sys.SessionInv.step hi hc hs) hc hinit hr).only w hw

/-- The first session stores two packets of its worker, and the second, started after it, two of its own. -/
theorem session_isolated_second : ∃ s₁ s₂, Lts.run (Sys.step .little) Sys.init (twoInTurn.take 19) = some s₁ ∧
    s₁.pcap.md.vec.length = 2 ∧ s₁.OnlyFrom 0 ∧ Lts.run (Sys.step .little) Sys.init twoInTurn = some s₂ ∧
    s₂.pcap.md.vec.length = 2 ∧ s₂.OnlyFrom 1 := by
  obtain ⟨s₁, hs₁, hlen₁, hw₁⟩ : ∃ s, Lts.run (Sys.step .little) Sys.init (twoInTurn.take 19) = some s ∧
      s.pcap.md.vec.length = 2 ∧ s.session = some (.live 0) := Lts.run_reaches (by decide +kernel)
  obtain ⟨s₂, hs₂, hlen₂, hw₂⟩ : ∃ s, Lts.run (Sys.step .little) Sys.init twoInTurn = some s ∧
      s.pcap.md.vec.length = 2 ∧ s.session = some (.live 1) := Lts.run_reaches (by decide +kernel)
  exact ⟨s₁, s₂, hs₁, hlen₁, session_isolated hs₁ (by decide +kernel) hw₁, hs₂, hlen₂,
    session_isolated hs₂ (by decide +kernel) hw₂⟩

/-- Stop and Start while a packet of the first worker is in its callback. -/
def restartDuringCallback : List UiAct :=
  [.openLive "eth0", .start "eth0" "", .worker 0 (.openLive true), .worker 0 .post, .deliver, .worker 0 .post, .deliver,
    .worker 0 .enterLoop, .worker 0 (.packet (udpFrame 42)), .stop, .start "eth0" "", .worker 0 .post, .deliver]

/-- The row of the first worker arrives in the list of the second. -/
theorem restart_shows_old_packet : ∃ u, Lts.run (Ui.step .little) Ui.init restartDuringCallback = some u ∧
    (u.sys.session = some (.live 1) ∧ u.sys.pcap.md.vec.map Row.src = [.live 0]) ∧ ¬ u.sys.OnlyFrom 1 :=
  Lts.run_reaches (by decide +kernel)

end MiniWireshark
