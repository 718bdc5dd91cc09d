import MiniWireshark.Live

/-!
# Leaving a capture and opening a file (`Pcap.cpp:404-493`, `CaptureView.qml:26-30`, `:422-431`)

Back calls `stop_Th` and `reset_md`; the file's view then reads into whatever the lists hold. What
is shown in the end is counted: the rows left by `reset_md`, those on their way, those the old
worker still accepts, and the file's. It is the file alone iff the first three are none.

| here | meaning |
| --- | --- |
| `Act.background`    | a delivery or a worker's action |
| `acceptedCount`     | how many of the frames handed to a run's handlers they accept |
| `Sys.LeavesNothing` | `reset_md` empties the lists or finds them empty, and nothing is on its way |
-/

namespace MiniWireshark

open scoped List

variable {h : Host} {s s' : Sys} {a : Act}

/-- What goes on behind the views. -/
def Act.background : Act → Bool
  | .deliver | .worker .. => true
  | _ => false

def UiAct.background : UiAct → Bool
  | .deliver | .worker .. => true
  | _ => false

def acceptedCount (h : Host) (acts : List Act) : Nat :=
  ((acts.flatMap Act.frames).filter fun f => (accepted h f).isSome).length

theorem acceptedCount_cons (a : Act) (acts : List Act) :
    acceptedCount h (a :: acts) = acceptedCount h [a] + acceptedCount h acts := by
  simp [acceptedCount]

theorem acceptedCount_append (acts acts' : List Act) :
    acceptedCount h (acts ++ acts') = acceptedCount h acts + acceptedCount h acts' := by
  simp [acceptedCount]

theorem acceptedCount_eq_zero {acts : List Act} :
    acceptedCount h acts = 0 ↔ ∀ f ∈ acts.flatMap Act.frames, accepted h f = none := by
  simp only [acceptedCount, List.length_eq_zero_iff, List.filter_eq_nil_iff, Option.not_isSome_iff_eq_none]

/-- A step takes what its handlers accept. -/
theorem Sys.length_taken (hs : Sys.step h s a = some s') : (s.taken h a).length = acceptedCount h [a] := by
  rw [acceptedCount, List.flatMap_singleton]
  cases a with
  | worker v b =>
    obtain ⟨wk, wk', ms, hv, _, _⟩ := Sys.work_step hs
    simp only [Sys.taken, hv]
    cases b <;> first | rfl | exact length_stored
  | pcapFileRead file =>
    cases file with
    | none => rfl
    | some frames => exact length_stored
  | _ => rfl

/-! ## Counting -/

/-- A step that clears nothing adds what its handlers accept. -/
theorem Sys.length_step (hc : a.clears s = false) (hs : Sys.step h s a = some s') :
    s'.rows.length = s.rows.length + acceptedCount h [a] ∧
      s'.entries.length = s.entries.length + acceptedCount h [a] := by
  obtain ⟨hr, he⟩ := (Sys.step_flow hs).2 hc
  rw [hr.length_eq, he.length_eq, List.length_append, List.length_append, List.length_map, List.length_map,
    Sys.length_taken hs]
  exact ⟨rfl, rfl⟩

theorem Act.clears_of_background (hb : a.background = true) : a.clears s = false := by
  cases a <;> first | rfl | cases hb

theorem Sys.length_background {acts : List Act} (hb : ∀ a ∈ acts, a.background = true)
    (hr : Lts.run (Sys.step h) s acts = some s') :
    s'.rows.length = s.rows.length + acceptedCount h acts ∧
      s'.entries.length = s.entries.length + acceptedCount h acts := by
  induction acts generalizing s with
  | nil => cases hr; exact ⟨rfl, rfl⟩
  | cons a acts ih =>
    obtain ⟨t, ht, hr⟩ := Lts.run_cons_eq_some.1 hr
    obtain ⟨h1, h2⟩ := Sys.length_step (Act.clears_of_background (hb a List.mem_cons_self)) ht
    obtain ⟨h3, h4⟩ := ih (fun b hm => hb b (List.mem_cons_of_mem a hm)) hr
    rw [acceptedCount_cons]
    omega

/-- With nothing on its way and nothing accepted, the lists stay as they are. -/
theorem Sys.stored_background {acts : List Act} (hb : ∀ a ∈ acts, a.background = true) (hn : s.NonePending)
    (hz : acceptedCount h acts = 0) (hr : Lts.run (Sys.step h) s acts = some s') :
    s'.pcap.md.vec = s.pcap.md.vec ∧ s'.pcap.vecDump = s.pcap.vecDump := by
  induction acts generalizing s with
  | nil => cases hr; exact ⟨rfl, rfl⟩
  | cons a acts ih =>
    obtain ⟨t, ht, hr⟩ := Lts.run_cons_eq_some.1 hr
    rw [acceptedCount_cons] at hz
    have htaken : s.taken h a = [] := List.length_eq_zero_iff.1 (by rw [Sys.length_taken ht]; omega)
    have hstep : t.NonePending ∧ t.pcap.md.vec = s.pcap.md.vec ∧ t.pcap.vecDump = s.pcap.vecDump := by
      cases a with
      | worker v b =>
        obtain ⟨hp, hpr, hpe⟩ := Sys.work_flow ht
        rw [htaken, hn.1] at hpr
        rw [htaken, hn.2] at hpe
        exact ⟨⟨hpr.eq_nil, hpe.eq_nil⟩, by rw [hp], by rw [hp]⟩
      | deliver =>
        obtain ⟨m, q, hq, rfl⟩ := Sys.deliver_cases ht
        obtain ⟨hpr, hpe⟩ := Sys.call_pend hq
        rw [hn.1] at hpr
        rw [hn.2] at hpe
        obtain ⟨hrow, hpr⟩ := List.append_eq_nil_iff.1 hpr.symm
        obtain ⟨hentry, hpe⟩ := List.append_eq_nil_iff.1 hpe.symm
        obtain ⟨hv, hd⟩ := s.call_stored q m
        rw [hrow, List.append_nil] at hv
        rw [hentry, List.append_nil] at hd
        exact ⟨⟨hpr, hpe⟩, hv, hd⟩
      | _ => exact absurd (hb _ List.mem_cons_self) nofun
    obtain ⟨hv, hd⟩ := ih (fun b hm => hb b (List.mem_cons_of_mem a hm)) hstep.1 (by omega) hr
    exact ⟨hv.trans hstep.2.1, hd.trans hstep.2.2⟩

/-! ## Back -/

/-- Back leaves the lists empty and nothing is on its way. -/
def Sys.LeavesNothing (s : Sys) : Prop :=
  (s.pcap.wkLife = false ∨ s.pcap.md.vec = [] ∧ s.pcap.vecDump = []) ∧ s.NonePending

instance (s : Sys) : Decidable s.LeavesNothing := inferInstanceAs (Decidable (_ ∧ _))

theorem Sys.leavesNothing_iff (s : Sys) :
    s.LeavesNothing ↔ s.stopTh.resetMd.rows = [] ∧ s.stopTh.resetMd.entries = [] := by
  obtain ⟨hpr, hpe⟩ := s.pend_stopTh
  obtain ⟨hmd, hvd, hlife⟩ := s.stopTh_stored
  obtain ⟨hpr', hpe'⟩ := s.stopTh.pend_resetMd
  rw [Sys.rows, Sys.entries, hpr', hpe', hpr, hpe]
  unfold Sys.LeavesNothing Sys.NonePending Sys.resetMd
  cases hl : s.pcap.wkLife with
  | false => simp [hlife, hl]
  | true =>
    simp only [hlife, hl, hmd, hvd, List.append_eq_nil_iff, Bool.true_eq_false, false_or, if_false]
    tauto

/-- Reading a file into a state between operations appends the accepted frames, numbered from 0. -/
theorem Sys.pcapFileRead_view {frames : List Frame} (hs : s.pcapFileRead h (some frames) = some s') (hn : s.pcap.num = 0) :
    s'.pcap.md.vec.map Row.pkt = s.pcap.md.vec.map Row.pkt ++ (stored h (.file 0) 0 frames).map (fun p => p.1.pkt) ∧
      s'.pcap.vecDump.map Entry.dump =
        s.pcap.vecDump.map Entry.dump ++ (stored h (.file 0) 0 frames).map (fun p => p.2.dump) := by
  obtain ⟨hmd, hvd, _⟩ := Sys.pcapFileRead_stored hs
  have htaken : s.taken h (.pcapFileRead (some frames)) = stored h (.file s.reads) 0 frames := by
    rw [Sys.taken, hn]
  have hsrc := stored_src h (.file s.reads) (.file 0) 0 frames
  have hrows := congrArg (List.map Prod.fst) hsrc
  have hentries := congrArg (List.map Prod.snd) hsrc
  rw [List.map_map, List.map_map] at hrows hentries
  rw [hmd, hvd, htaken, List.map_append, List.map_append, List.map_map, List.map_map]
  exact ⟨congrArg _ hrows, congrArg _ hentries⟩

/-- The same in terms of the operations. -/
theorem Sys.file_view_iff {acts bg bg' : List Act} (hr : Lts.run (Sys.step h) Sys.init acts = some s)
    (hb : ∀ a ∈ bg, a.background = true) (hb' : ∀ a ∈ bg', a.background = true) {frames : List Frame}
    (hr' : Lts.run (Sys.step h) s (.stopTh :: .resetMd :: (bg ++ .pcapFileRead (some frames) :: bg')) = some s')
    (hidle : s'.Idle) :
    (s'.pcap.md.vec.map Row.pkt = (stored h (.file 0) 0 frames).map (fun p => p.1.pkt) ∧
      s'.pcap.vecDump.map Entry.dump = (stored h (.file 0) 0 frames).map (fun p => p.2.dump)) ↔
    s.LeavesNothing ∧ ∀ f ∈ (bg ++ bg').flatMap Act.frames, accepted h f = none := by
  obtain ⟨_, h1, hr'⟩ := Lts.run_cons_eq_some.1 hr'
  cases h1
  obtain ⟨_, h2, hr'⟩ := Lts.run_cons_eq_some.1 hr'
  cases h2
  obtain ⟨t, ht, hr'⟩ := Lts.run_append_eq_some.1 hr'
  obtain ⟨t', hread, ht'⟩ := Lts.run_cons_eq_some.1 hr'
  have hnum : t.pcap.num = 0 := by
    have hback : Lts.run (Sys.step h) s (.stopTh :: .resetMd :: bg) = some t := ht
    exact Sys.num_run (Sys.num_run rfl hr) hback
  have hfile : t.pcapFileRead h (some frames) = some t' := hread
  obtain ⟨hv, hd⟩ := Sys.pcapFileRead_view hfile hnum
  rw [Sys.leavesNothing_iff, ← acceptedCount_eq_zero, acceptedCount_append]
  have hlen := Sys.length_background hb ht
  constructor
  · rintro ⟨heqv, heqd⟩
    -- the final lists hold exactly as many packets as the file, so nothing else was ever there
    have hlen' := Sys.length_background hb' ht'
    have hread' := Sys.length_step (a := .pcapFileRead (some frames)) rfl hread
    have hrows : s'.rows.length = (stored h (.file 0) 0 frames).length := by
      rw [Sys.rows, hidle.nonePending.1, List.append_nil, ← List.length_map Row.pkt, heqv, List.length_map]
    have hentries : s'.entries.length = (stored h (.file 0) 0 frames).length := by
      rw [Sys.entries, hidle.nonePending.2, List.append_nil, ← List.length_map Entry.dump, heqd, List.length_map]
    have hk : acceptedCount h [.pcapFileRead (some frames)] = (stored h (.file 0) 0 frames).length := by
      rw [acceptedCount, List.flatMap_singleton, length_stored]
      rfl
    refine ⟨⟨List.length_eq_zero_iff.1 ?_, List.length_eq_zero_iff.1 ?_⟩, ?_⟩ <;> omega
  · rintro ⟨⟨hr0, he0⟩, hz⟩
    simp only [hr0, he0, List.length_nil] at hlen
    have htr : t.rows = [] := List.length_eq_zero_iff.1 (by omega)
    have hte : t.entries = [] := List.length_eq_zero_iff.1 (by omega)
    obtain ⟨htv, htpr⟩ := List.append_eq_nil_iff.1 htr
    obtain ⟨htd, htpe⟩ := List.append_eq_nil_iff.1 hte
    have hpend := (Sys.pcapFileRead_sameControl hfile).pend
    have hnone : t'.NonePending := ⟨hpend.1.trans htpr, hpend.2.trans htpe⟩
    obtain ⟨hsv, hsd⟩ := Sys.stored_background hb' hnone (by omega) ht'
    rw [hsv, hsd, hv, hd, htv, htd]
    exact ⟨rfl, rfl⟩

/-- **A file's view shows exactly the file** iff Back left nothing in the lists and nothing was on its
way, and no frame that reaches a handler in the background is accepted any more. Here Back is
pressed in any state the views reach, and everything is counted once no worker is alive and
nothing is pending. -/
theorem file_view_exact_iff {acts bg bg' : List UiAct} {u u' : Ui}
    (hr : Lts.run (Ui.step h) Ui.init acts = some u) (hb : ∀ a ∈ bg ++ bg', a.background = true) {nicName : String}
    {frames : List Frame}
    (hr' : Lts.run (Ui.step h) u (.back :: (bg ++ .openFile nicName (some frames) :: bg')) = some u')
    (hidle : u'.sys.Idle) :
    (u'.sys.pcap.md.vec.map Row.pkt = (stored h (.file 0) 0 frames).map (fun p => p.1.pkt) ∧
      u'.sys.pcap.vecDump.map Entry.dump = (stored h (.file 0) 0 frames).map (fun p => p.2.dump)) ↔
    u.sys.LeavesNothing ∧
      ∀ f ∈ ((bg ++ bg').flatMap UiAct.calls).flatMap Act.frames, accepted h f = none := by
  have hcalls {bs : List UiAct} (hbs : ∀ a ∈ bs, a.background = true) :
      ∀ a ∈ bs.flatMap UiAct.calls, a.background = true := by
    intro a ha
    obtain ⟨b, hbm, hab⟩ := List.mem_flatMap.1 ha
    cases b with
    | deliver => cases List.mem_singleton.1 hab; rfl
    | worker w b => cases List.mem_singleton.1 hab; rfl
    | _ => exact absurd (hbs _ hbm) nofun
  have hrun := Ui.run_calls hr'
  rw [List.flatMap_cons, List.flatMap_append, List.flatMap_cons] at hrun
  rw [List.flatMap_append]
  exact Sys.file_view_iff (Ui.run_calls hr) (hcalls fun a ha => hb a (List.mem_append_left _ ha))
    (hcalls fun a ha => hb a (List.mem_append_right _ ha)) hrun hidle

/-- A capture of one packet, stopped and ended. -/
def endedCapture : List UiAct :=
  [.openLive "eth0", .start "eth0" "", .worker 0 (.openLive true), .worker 0 .post, .worker 0 .post,
    .worker 0 .enterLoop, .deliver, .deliver, .worker 0 (.packet (udpFrame 42)), .worker 0 .post, .worker 0 .post,
    .deliver, .deliver, .stop, .worker 0 .loopBreak, .worker 0 .close, .worker 0 .post, .deliver]

/-- Once the end has been delivered, leaving the capture and opening a file shows the file. -/
theorem file_view_exact_after_end : ∃ u u',
    Lts.run (Ui.step .little) Ui.init (endedCapture ++ [.worker 0 .post, .deliver]) = some u ∧
    Lts.run (Ui.step .little) u (.back :: ([] ++ .openFile "" (some [udpFrame 42]) :: [])) = some u' ∧
    u.sys.pcap.md.vec.length = 1 ∧
    u'.sys.pcap.md.vec.map Row.pkt = (stored .little (.file 0) 0 [udpFrame 42]).map (fun p => p.1.pkt) := by
  obtain ⟨u, hu, hlen, hleaves, hnext⟩ : ∃ u,
      Lts.run (Ui.step .little) Ui.init (endedCapture ++ [.worker 0 .post, .deliver]) = some u ∧
        u.sys.pcap.md.vec.length = 1 ∧ u.sys.LeavesNothing ∧
        (Lts.run (Ui.step .little) u (.back :: ([] ++ .openFile "" (some [udpFrame 42]) :: []))).any
          (fun u' => decide u'.sys.Idle) = true := Lts.run_reaches (by decide +kernel)
  obtain ⟨u', hu', hidle⟩ := (Option.any_eq_true _ _).1 hnext
  exact ⟨u, u', hu, hu', hlen, ((file_view_exact_iff hu (by decide) hu' (of_decide_eq_true hidle)).2
    ⟨hleaves, by decide⟩).1⟩

/-- Back after Stop, before the end is delivered: `reset_md` is refused and the row stays. -/
theorem file_view_keeps_old_row : ∃ u, Lts.run (Ui.step .little) Ui.init
      (endedCapture ++ [.back, .worker 0 .post, .deliver, .openFile "" (some [udpFrame 42])]) = some u ∧ u.sys.Idle ∧
    ¬ u.sys.pcap.md.vec.map Row.pkt = (stored .little (.file 0) 0 [udpFrame 42]).map (fun p => p.1.pkt) :=
  Lts.run_reaches (by decide +kernel)

end MiniWireshark
