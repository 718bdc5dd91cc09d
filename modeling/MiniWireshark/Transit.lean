import MiniWireshark.Handles

/-!
# Packets stored and packets on their way

An accepted packet of a live capture is in the callback of its worker, then its row and its entry
are queued, then they are stored. `Sys.rows` and `Sys.entries` are all three stations together, and
`Sys.step_flow` says once what a step does to them: it adds what the step's handler accepts, unless
it clears the lists, which leaves what is on its way.

| here | meaning |
| --- | --- |
| `Sys.pendRows`, `Sys.pendEntries` | what is queued or in a callback |
| `Sys.rows`, `Sys.entries`         | what is stored, then what is on its way |
| `Act.clears s`                    | `create_Th` with a name, `reset_md` while `wk_life` is false |
| `Sys.taken h s`                   | what the step's handler accepts |
| `Sys.OnlyOf s src`                | everything stored or on its way is of the source `src` |
-/

namespace MiniWireshark

open scoped List

/-- The row a queued call carries. -/
def Msg.row? : Msg → Option Row
  | .updateMd row => some row
  | _ => none

/-- The entry a queued call carries. -/
def Msg.entry? : Msg → Option Entry
  | .dumpPushBack e => some e
  | _ => none

/-- The row a worker has accepted and not posted. -/
def Worker.rows (wk : Worker) : List Row :=
  match wk.phase with
  | .handling pkt _ => [pkt]
  | _ => []

/-- The entry a worker has accepted and not posted. -/
def Worker.entries (wk : Worker) : List Entry :=
  match wk.phase with
  | .handling _ dump => [dump]
  | .mdPosted dump => [dump]
  | _ => []

namespace Sys

def pendRows (s : Sys) : List Row := s.queue.filterMap Msg.row? ++ s.workers.flatMap Worker.rows

def pendEntries (s : Sys) : List Entry := s.queue.filterMap Msg.entry? ++ s.workers.flatMap Worker.entries

def rows (s : Sys) : List Row := s.pcap.md.vec ++ s.pendRows

def entries (s : Sys) : List Entry := s.pcap.vecDump ++ s.pendEntries

/-- No packet is queued or in a callback. -/
def NonePending (s : Sys) : Prop := s.pendRows = [] ∧ s.pendEntries = []

instance (s : Sys) : Decidable s.NonePending := inferInstanceAs (Decidable (_ ∧ _))

end Sys

/-- What a worker's callback accepts. -/
def Worker.taken (h : Host) (w : Nat) (wk : Worker) : WkAct → List (Row × Entry)
  | .packet f => stored h (.live w) wk.num [f]
  | _ => []

/-- What the step's handler accepts, as it is numbered and stored. -/
def Sys.taken (h : Host) (s : Sys) : Act → List (Row × Entry)
  | .worker w a => match s.workers[w]? with
    | some wk => wk.taken h w a
    | none => []
  | .pcapFileRead (some frames) => stored h (.file s.reads) s.pcap.num frames
  | _ => []

/-- The frames an action hands to a handler. -/
def Act.frames : Act → List Frame
  | .worker _ (.packet f) => [f]
  | .pcapFileRead (some frames) => frames
  | _ => []

/-- The step empties `md` and `vec_dump`. -/
def Act.clears (s : Sys) : Act → Bool
  | .createTh nicName _ => !nicName.isEmpty
  | .resetMd => !s.pcap.wkLife
  | _ => false

/-! ## Workers -/

/-- An action that posts nothing holds what it held and what it accepts. -/
theorem Worker.Quiet.flow {h : Host} {w : Nat} {wk wk' : Worker} {a : WkAct} (hq : Worker.Quiet h w wk a wk') :
    wk'.rows = wk.rows ++ (wk.taken h w a).map Prod.fst ∧
      wk'.entries = wk.entries ++ (wk.taken h w a).map Prod.snd := by
  cases hq with
  | openLive ok hp => cases ok <;> simp [Worker.rows, Worker.entries, Worker.taken, hp]
  | compile ok hp => cases ok <;> simp [Worker.rows, Worker.entries, Worker.taken, hp]
  | setfilter ok hp => cases ok <;> simp [Worker.rows, Worker.entries, Worker.taken, hp]
  | read hp hb => simp [Worker.rows, Worker.entries, Worker.taken, hp]
  | wake hp => simp [Worker.rows, Worker.entries, Worker.taken, hp]
  | reject f hp hl ha =>
    rcases hp with hp | hp <;> simp [Worker.rows, Worker.entries, Worker.taken, stored_cons_reject ha, hp]
  | accept f pkt hp hl ha =>
    rcases hp with hp | hp <;> simp [Worker.rows, Worker.entries, Worker.taken, stored_cons_accept ha, hp]
  | enterLoop hp => simp [Worker.rows, Worker.entries, Worker.taken, hp]
  | loopBreak hp hb => simp [Worker.rows, Worker.entries, Worker.taken, hp]
  | loopError hp => rcases hp with hp | hp <;> simp [Worker.rows, Worker.entries, Worker.taken, hp]
  | close hp => simp [Worker.rows, Worker.entries, Worker.taken, hp]

/-- A posting hands over the row or the entry it carries. -/
theorem Worker.Post.flow {w : Nat} {wk wk' : Worker} {m : Msg} (hp : Worker.Post w wk m wk') :
    m.row?.toList ++ wk'.rows = wk.rows ∧ m.entry?.toList ++ wk'.entries = wk.entries := by
  cases hp <;> rename_i hph <;> simp [Worker.rows, Worker.entries, Msg.row?, Msg.entry?, hph]

theorem Worker.unblock_rows (wk : Worker) : wk.unblock.rows = wk.rows := by
  rcases wk.unblock_cases with ⟨hph, he⟩ | he
  · simp [he, Worker.rows, hph]
  · rw [he]

theorem Worker.unblock_entries (wk : Worker) : wk.unblock.entries = wk.entries := by
  rcases wk.unblock_cases with ⟨hph, he⟩ | he
  · simp [he, Worker.entries, hph]
  · rw [he]

/-- What a worker posts and still holds is what it held and what it accepts. -/
theorem Worker.step_flow {h : Host} {w : Nat} {wk wk' : Worker} {a : WkAct} {ms : List Msg}
    (hs : wk.step h w a = some (wk', ms)) :
    ms.filterMap Msg.row? ++ wk'.rows = wk.rows ++ (wk.taken h w a).map Prod.fst ∧
      ms.filterMap Msg.entry? ++ wk'.entries = wk.entries ++ (wk.taken h w a).map Prod.snd := by
  rcases Worker.step_cases hs with ⟨rfl, hq⟩ | ⟨rfl, m, rfl, hp⟩
  · exact hq.flow
  · have hf := hp.flow
    simp only [Worker.taken, List.map_nil, List.append_nil, ← hf.1, ← hf.2]
    cases m <;> exact ⟨rfl, rfl⟩

/-- A spent worker takes nothing. -/
theorem Worker.Spent.taken {h : Host} {w : Nat} {wk wk' : Worker} {a : WkAct} {ms : List Msg} (hd : wk.Spent)
    (hs : wk.step h w a = some (wk', ms)) : wk.taken h w a = [] := by
  rcases Worker.step_cases hs with ⟨_, hq⟩ | ⟨rfl, m, _, hp⟩
  · cases hq with
    | reject f hp hl ha => simp [Worker.taken, stored_cons_reject ha]
    | accept f pkt hp hl ha => rcases hp with hp | hp <;> simp_all [Worker.Spent, Phase.pastLoop]
    | _ => rfl
  · rfl

/-- A worker's counter counts what it accepts. -/
theorem Worker.step_num {h : Host} {w : Nat} {wk wk' : Worker} {a : WkAct} {ms : List Msg}
    (hs : wk.step h w a = some (wk', ms)) : wk'.num = wk.num + (wk.taken h w a).length := by
  rcases Worker.step_cases hs with ⟨_, hq⟩ | ⟨rfl, m, _, hp⟩
  · cases hq with
    | reject f hp hl ha => simp [Worker.taken, stored_cons_reject ha]
    | accept f pkt hp hl ha => simp [Worker.taken, stored_cons_accept ha]
    | _ => rfl
  · cases hp <;> rfl

/-! ## Steps of the program -/

section
variable {h : Host} {s s' : Sys} {w : Nat} {a : WkAct} {m : Msg} {q : List Msg}

/-- Delivery moves what the oldest call carries from the way to the lists. -/
theorem Sys.call_pend (hq : s.queue = m :: q) :
    s.pendRows = m.row?.toList ++ (s.call q m).pendRows ∧
      s.pendEntries = m.entry?.toList ++ (s.call q m).pendEntries := by
  cases m <;>
    simp [Sys.pendRows, Sys.pendEntries, Sys.call, hq, Msg.row?, Msg.entry?, List.filterMap_cons,
      Lists.flatMap_modify Worker.unblock_rows, Lists.flatMap_modify Worker.unblock_entries]

theorem Sys.call_stored (s : Sys) (q : List Msg) (m : Msg) :
    (s.call q m).pcap.md.vec = s.pcap.md.vec ++ m.row?.toList ∧
      (s.call q m).pcap.vecDump = s.pcap.vecDump ++ m.entry?.toList := by
  cases m <;> simp [Sys.call, Msg.row?, Msg.entry?, Capture.updateMd]

theorem Sys.call_flow (hq : s.queue = m :: q) : (s.call q m).rows = s.rows ∧ (s.call q m).entries = s.entries := by
  obtain ⟨hpr, hpe⟩ := Sys.call_pend hq
  obtain ⟨hsr, hse⟩ := s.call_stored q m
  constructor
  · rw [Sys.rows, Sys.rows, hsr, hpr, List.append_assoc]
  · rw [Sys.entries, Sys.entries, hse, hpe, List.append_assoc]

/-- A worker's action puts on the way what its callback accepts. -/
theorem Sys.work_flow (hs : s.work h w a = some s') :
    s'.pcap = s.pcap ∧ s'.pendRows ~ s.pendRows ++ (s.taken h (.worker w a)).map Prod.fst ∧
      s'.pendEntries ~ s.pendEntries ++ (s.taken h (.worker w a)).map Prod.snd := by
  obtain ⟨wk, wk', ms, hwk, hst, rfl⟩ := Sys.work_step hs
  have hf := Worker.step_flow hst
  simp only [Sys.taken, hwk, Sys.pendRows, Sys.pendEntries, List.filterMap_append, true_and]
  exact ⟨Lists.post_perm _ hwk hf.1, Lists.post_perm _ hwk hf.2⟩

/-- An operation of `Pcap` or a sort leaves what is on its way. -/
theorem Sys.pend_createTh (s : Sys) (nicName ft : String) :
    (s.createTh nicName ft).pendRows = s.pendRows ∧ (s.createTh nicName ft).pendEntries = s.pendEntries := by
  unfold Sys.createTh
  split <;> simp [Sys.pendRows, Sys.pendEntries, Worker.rows, Worker.entries]

theorem Sys.pend_stopTh (s : Sys) :
    s.stopTh.pendRows = s.pendRows ∧ s.stopTh.pendEntries = s.pendEntries := by
  unfold Sys.stopTh
  split
  · exact ⟨rfl, rfl⟩
  · simp only [Sys.pendRows, Sys.pendEntries]
    exact ⟨congrArg _ (Lists.flatMap_modify fun _ => rfl), congrArg _ (Lists.flatMap_modify fun _ => rfl)⟩

/-- `stop_Th` leaves what is stored. -/
theorem Sys.stopTh_stored (s : Sys) : s.stopTh.pcap.md = s.pcap.md ∧ s.stopTh.pcap.vecDump = s.pcap.vecDump ∧
    s.stopTh.pcap.wkLife = s.pcap.wkLife := by
  unfold Sys.stopTh
  split <;> exact ⟨rfl, rfl, rfl⟩

theorem Sys.pend_resetMd (s : Sys) :
    s.resetMd.pendRows = s.pendRows ∧ s.resetMd.pendEntries = s.pendEntries := by
  unfold Sys.resetMd
  split <;> exact ⟨rfl, rfl⟩

/-- Reading a file appends what it accepts. -/
theorem Sys.pcapFileRead_stored {file : Option (List Frame)} (hs : s.pcapFileRead h file = some s') :
    s'.pcap.md.vec = s.pcap.md.vec ++ (s.taken h (.pcapFileRead file)).map Prod.fst ∧
      s'.pcap.vecDump = s.pcap.vecDump ++ (s.taken h (.pcapFileRead file)).map Prod.snd ∧
      s'.pcap.vecDumpFile = s.pcap.vecDumpFile ∧ (s'.pcap.num = 0 ∨ s'.pcap.num = s.pcap.num) ∧
      (if s.taken h (.pcapFileRead file) = [] then s'.reads = s.reads ∧ s'.session = s.session
        else s'.reads = s.reads + 1 ∧ s'.session = some (.file s.reads)) := by
  cases file with
  | none => cases hs; simp [Sys.taken]
  | some frames =>
    simp only [Sys.pcapFileRead, Pcap.pcapFileRead_eq, Option.bind_eq_bind, Option.bind_some, List.length_append,
      List.length_map, Nat.add_eq_left, List.length_eq_zero_iff] at hs
    split at hs <;> cases hs <;> simp [Sys.taken, *]

theorem Sys.SameControl.pend (hc : s.SameControl s') :
    s'.pendRows = s.pendRows ∧ s'.pendEntries = s.pendEntries := by
  simp only [Sys.pendRows, Sys.pendEntries, hc.workers, hc.queue, and_self]

/-- **What a step does to the packets.** Unless it clears the lists, it adds what its handler
accepts; if it clears them, what is on its way remains. -/
theorem Sys.step_flow {a : Act} (hs : Sys.step h s a = some s') :
    (a.clears s = true → s'.rows = s.pendRows ∧ s'.entries = s.pendEntries) ∧
    (a.clears s = false → s'.rows ~ s.rows ++ (s.taken h a).map Prod.fst ∧
      s'.entries ~ s.entries ++ (s.taken h a).map Prod.snd) := by
  cases a with
  | createTh nicName ft =>
    cases hs
    obtain ⟨hr, he⟩ := s.pend_createTh nicName ft
    rw [Sys.rows, Sys.entries, hr, he]
    cases hn : nicName.isEmpty <;> simp [Act.clears, Sys.createTh, Sys.taken, Sys.rows, Sys.entries, hn]
  | stopTh =>
    cases hs
    obtain ⟨hr, he⟩ := s.pend_stopTh
    obtain ⟨hmd, hvd, _⟩ := s.stopTh_stored
    simp [Act.clears, Sys.taken, Sys.rows, Sys.entries, hr, he, hmd, hvd]
  | resetMd =>
    cases hs
    obtain ⟨hr, he⟩ := s.pend_resetMd
    rw [Sys.rows, Sys.entries, hr, he]
    cases hl : s.pcap.wkLife <;> simp [Act.clears, Sys.resetMd, Sys.taken, Sys.rows, Sys.entries, hl]
  | pcapFileRead file =>
    obtain ⟨hmd, hvd, _⟩ := Sys.pcapFileRead_stored hs
    obtain ⟨hr, he⟩ := (Sys.pcapFileRead_sameControl hs).pend
    refine ⟨fun hc => by simp [Act.clears] at hc, fun _ => ?_⟩
    simp only [Sys.rows, Sys.entries, hr, he, hmd, hvd, List.append_assoc]
    exact ⟨List.perm_append_comm.append_left _, List.perm_append_comm.append_left _⟩
  | sort col sorted =>
    obtain ⟨md, hmd, rfl⟩ := Sys.sort_cases hs
    obtain ⟨hvec, hperm⟩ := Capture.sort_spec hmd
    refine ⟨fun hc => by simp [Act.clears] at hc, fun _ => ⟨?_, ?_⟩⟩
    · simp only [Sys.taken, List.map_nil, List.append_nil, Sys.rows, hvec]
      exact hperm.append_right s.pendRows
    · simp [Sys.taken, Sys.entries, Sys.pendEntries]
  | deliver =>
    obtain ⟨m, q, hq, rfl⟩ := Sys.deliver_cases hs
    obtain ⟨hr, he⟩ := Sys.call_flow hq
    simp [Act.clears, Sys.taken, hr, he]
  | worker w a =>
    obtain ⟨hp, hr, he⟩ := Sys.work_flow hs
    refine ⟨fun hc => by simp [Act.clears] at hc, fun _ => ?_⟩
    simp only [Sys.rows, Sys.entries, hp, List.append_assoc]
    exact ⟨hr.append_left _, he.append_left _⟩

/-- What a step takes comes from its frames. -/
theorem Sys.mem_taken {a : Act} {p : Row × Entry} (hp : p ∈ s.taken h a) :
    ∃ f ∈ a.frames, ∃ src k pkt, accepted h f = some pkt ∧ p = f.pair src k pkt := by
  have hstored {src : Source} {n : Nat} {fs : List Frame} (hp : p ∈ stored h src n fs) :
      ∃ f ∈ fs, ∃ src k pkt, accepted h f = some pkt ∧ p = f.pair src k pkt := by
    obtain ⟨f, hf, pkt, k, ha, hpair⟩ := mem_stored hp
    exact ⟨f, hf, src, k, pkt, ha, hpair⟩
  cases a with
  | worker w a =>
    simp only [Sys.taken] at hp
    split at hp
    · cases a <;> first | exact hstored hp | exact absurd hp List.not_mem_nil
    · exact absurd hp List.not_mem_nil
  | pcapFileRead file =>
    cases file with
    | none => exact absurd hp List.not_mem_nil
    | some frames => exact hstored hp
  | _ => exact absurd hp List.not_mem_nil

/-- A step's packets were there before, or the step took them. -/
theorem Sys.mem_step {a : Act} (hs : Sys.step h s a = some s') :
    (∀ r ∈ s'.rows, r ∈ s.rows ∨ r ∈ (s.taken h a).map Prod.fst) ∧
      ∀ e ∈ s'.entries, e ∈ s.entries ∨ e ∈ (s.taken h a).map Prod.snd := by
  obtain ⟨hclear, hkeep⟩ := Sys.step_flow hs
  cases hc : a.clears s with
  | true =>
    obtain ⟨hr, he⟩ := hclear hc
    exact ⟨fun r hm => .inl (List.mem_append_right _ (hr ▸ hm)), fun e hm => .inl (List.mem_append_right _ (he ▸ hm))⟩
  | false =>
    obtain ⟨hr, he⟩ := hkeep hc
    exact ⟨fun r hm => List.mem_append.1 (hr.mem_iff.1 hm), fun e hm => List.mem_append.1 (he.mem_iff.1 hm)⟩

/-- What a worker accepts carries its name. -/
theorem Sys.src_taken {w : Nat} {a : WkAct} {p : Row × Entry} (hp : p ∈ s.taken h (.worker w a)) :
    p.1.src = .live w ∧ p.2.src = .live w := by
  simp only [Sys.taken] at hp
  split at hp
  · cases a <;> first | exact (sameFrame_of_mem_stored hp).2 | exact absurd hp List.not_mem_nil
  · exact absurd hp List.not_mem_nil

/-- Everything stored or on its way is of one source. -/
def Sys.OnlyOf (s : Sys) (src : Source) : Prop := (∀ r ∈ s.rows, r.src = src) ∧ ∀ e ∈ s.entries, e.src = src

instance (s : Sys) (src : Source) : Decidable (s.OnlyOf src) := inferInstanceAs (Decidable (_ ∧ _))

theorem Sys.OnlyOf.of_nil {src : Source} (hr : s.rows = []) (he : s.entries = []) : s.OnlyOf src := by
  rw [Sys.OnlyOf, hr, he]
  exact ⟨fun _ hm => absurd hm List.not_mem_nil, fun _ hm => absurd hm List.not_mem_nil⟩

/-- It stays so while what is accepted is of that source too. -/
theorem Sys.OnlyOf.step {src : Source} {a : Act} (ho : s.OnlyOf src) (hs : Sys.step h s a = some s')
    (htaken : ∀ p ∈ s.taken h a, p.1.src = src ∧ p.2.src = src) : s'.OnlyOf src := by
  obtain ⟨hrows, hentries⟩ := Sys.mem_step hs
  refine ⟨fun r hr => ?_, fun e he => ?_⟩
  · rcases hrows r hr with hr | hr
    · exact ho.1 r hr
    · obtain ⟨p, hp, rfl⟩ := List.mem_map.1 hr
      exact (htaken p hp).1
  · rcases hentries e he with he | he
    · exact ho.2 e he
    · obtain ⟨p, hp, rfl⟩ := List.mem_map.1 he
      exact (htaken p hp).2

/-- What a step does to the members only files touch: nothing, or it resets them. -/
theorem Sys.step_file {a : Act} (hs : Sys.step h s a = some s') :
    (s'.pcap.vecDumpFile = [] ∨ s'.pcap.vecDumpFile = s.pcap.vecDumpFile) ∧
      (s'.pcap.num = 0 ∨ s'.pcap.num = s.pcap.num) := by
  cases a with
  | createTh nicName ft => cases hs; unfold Sys.createTh; split <;> simp
  | stopTh => cases hs; unfold Sys.stopTh; split <;> simp
  | resetMd => cases hs; unfold Sys.resetMd; split <;> simp
  | pcapFileRead file =>
    obtain ⟨_, _, hfile, hnum, _⟩ := Sys.pcapFileRead_stored hs
    exact ⟨.inr hfile, hnum⟩
  | sort col sorted =>
    obtain ⟨md, _, rfl⟩ := Sys.sort_cases hs
    exact ⟨.inr rfl, .inr rfl⟩
  | deliver =>
    obtain ⟨m, q, hq, rfl⟩ := Sys.deliver_cases hs
    cases m <;> exact ⟨.inr rfl, .inr rfl⟩
  | worker w a =>
    obtain ⟨hp, _⟩ := Sys.work_flow hs
    rw [hp]
    exact ⟨.inr rfl, .inr rfl⟩

/-- `vec_dump_file` is never filled. -/
theorem Sys.vecDumpFile_run {acts : List Act} (hv : s.pcap.vecDumpFile = [])
    (hr : Lts.run (Sys.step h) s acts = some s') : s'.pcap.vecDumpFile = [] :=
  Lts.run_invariant' (I := fun s => s.pcap.vecDumpFile = [])
    (fun _ _ _ hv hs => (Sys.step_file hs).1.elim id fun he => he.trans hv) hv hr

/-- Between operations the file counter stands at 0. -/
theorem Sys.num_run {acts : List Act} (hn : s.pcap.num = 0) (hr : Lts.run (Sys.step h) s acts = some s') :
    s'.pcap.num = 0 :=
  Lts.run_invariant' (I := fun s => s.pcap.num = 0)
    (fun _ _ _ hn hs => (Sys.step_file hs).2.elim id fun he => he.trans hn) hn hr

end

/-! ## Runs for the concrete cases -/

/-- A capture of one frame, up to the delivery of its entry. -/
def captureOne (f : Frame) : List Act :=
  [.createTh "eth0" "", .worker 0 (.openLive true), .worker 0 .post, .worker 0 .post, .worker 0 .enterLoop,
    .worker 0 (.packet f), .worker 0 .post, .worker 0 .post, .deliver, .deliver, .deliver, .deliver]

/-- A capture of two packets, stopped and ended, and a second one of two packets. -/
def twoInTurn : List Act :=
  [.createTh "eth0" "", .worker 0 (.openLive true), .worker 0 .post, .worker 0 .post, .worker 0 .enterLoop, .deliver,
    .deliver, .worker 0 (.packet (udpFrame 42)), .worker 0 .post, .worker 0 .post, .worker 0 (.packet (udpFrame 60)),
    .worker 0 .post, .worker 0 .post, .deliver, .deliver, .deliver, .deliver, .stopTh, .worker 0 .loopBreak,
    .createTh "eth1" "", .worker 1 (.openLive true), .worker 1 .post, .worker 1 .post, .worker 1 .enterLoop,
    .worker 0 .close, .worker 1 (.packet (udpFrame 42)), .worker 1 .post, .worker 1 .post,
    .worker 1 (.packet (udpFrame 50)), .worker 1 .post, .worker 1 .post, .deliver, .deliver, .deliver, .deliver,
    .deliver, .deliver]

end MiniWireshark
