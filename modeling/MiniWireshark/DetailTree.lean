import MiniWireshark.DetailWire

/-!
# The tree in the detail view

Whatever was shown before, `start_tree_md` returns exactly if every byte it reads is inside the stored
data, and then the view holds the tree of `Detail.ops` and nothing else.

| here | meaning |
| --- | --- |
| `viewStep`                  | a call of `start_tree_md`, on whatever is stored at the time |
| `tree_navigation_coherent`  | navigation is coherent, in every tree that is built and in every one that is shown |
-/

namespace MiniWireshark

open Reader Forest

section
variable {h : Host} {p : Pcap} {idx : Int} {m m' : TreeModel} {d : Detail}

theorem Detail.isScoped_ops (d : Detail) : isScoped 1 d.ops = true := by
  obtain ⟨ether, ip, transport⟩ := d
  cases transport <;> rfl

/-- Each item is placed after it is made, and in the order they are made. -/
theorem Detail.placed_ops (d : Detail) : d.ops.filterMap TreeOp.placed = List.range' 1 (titlesIn d.ops).length := by
  obtain ⟨ether, ip, transport⟩ := d
  cases transport <;> rfl

/-- **Spec of `start_tree_md`**, where the fields can be read. -/
theorem startTreeMd_of_read (hm : m.Tidy) (hd : Detail.read h (ofList (p.treeData idx)) = some d) :
    ∃ m', startTreeMd h p idx m = some m' ∧ m'.Built m.next d.ops ∧ m'.Tidy := by
  obtain ⟨m₁, m', hset, hr, hbuilt, htidy⟩ := hm.build d.isScoped_ops d.placed_ops
  refine ⟨m', ?_, hbuilt, htidy⟩
  rw [startTreeMd, hset, Option.bind_eq_bind, Option.bind_some, hd, Option.bind_eq_bind, Option.bind_some]
  exact hr

/-- It fails nowhere else. -/
theorem isSome_startTreeMd (hm : m.Tidy) :
    (startTreeMd h p idx m).isSome = (Detail.read h (ofList (p.treeData idx))).isSome := by
  cases hd : Detail.read h (ofList (p.treeData idx)) with
  | none =>
    obtain ⟨m₁, hset, _⟩ := hm.setPacketTree_new
    simp only [startTreeMd, hset, hd, Option.bind_eq_bind, Option.bind_some, Option.bind_none, Option.isSome_none]
  | some d =>
    obtain ⟨m', hm', _⟩ := startTreeMd_of_read hm hd
    rw [hm']
    rfl

/-- **Step lemma for the view.** -/
theorem startTreeMd_cases (hm : m.Tidy) (hs : startTreeMd h p idx m = some m') :
    ∃ d, Detail.read h (ofList (p.treeData idx)) = some d ∧ m'.Built m.next d.ops ∧ m'.Tidy := by
  have hsome : (Detail.read h (ofList (p.treeData idx))).isSome = true := by
    rw [← isSome_startTreeMd hm, hs]
    rfl
  obtain ⟨d, hd⟩ := Option.isSome_iff_exists.1 hsome
  obtain ⟨m₁, hm₁, hbuilt, htidy⟩ := startTreeMd_of_read hm hd
  obtain rfl : m₁ = m' := Option.some.inj (hm₁.symm.trans hs)
  exact ⟨d, hd, hbuilt, htidy⟩

end

/-! ## Calls one after the other -/

def viewStep (h : Host) (m : TreeModel) (call : Pcap × Int) : Option TreeModel := startTreeMd h call.1 call.2 m

theorem tidy_run {h : Host} {calls : List (Pcap × Int)} {m : TreeModel} (hr : Lts.run (viewStep h) {} calls = some m) :
    m.Tidy := by
  refine Lts.run_invariant' (fun m call m' hm hs => ?_) TreeModel.Tidy.init hr
  obtain ⟨_, _, _, htidy⟩ := startTreeMd_cases hm hs
  exact htidy

/-- **Navigation is coherent.** In every tree made with the constructor and `addChild` in which each item
is placed at most once and no cycle is made, once `setPacketTree` shows it; and in every tree that
`start_tree_md` shows, where the items found are all the items there are. -/
theorem tree_navigation_coherent :
    (∀ (ops : List TreeOp) (m : TreeModel) (r : Nat), (ops.filterMap TreeOp.placed).Nodup →
      Lts.Along TreeOp.step TreeOp.Fits {} ops → Lts.run TreeOp.step {} ops = some m → m.root = some r →
      m.Coherent r) ∧
    ∀ (h : Host) (calls : List (Pcap × Int)) (m : TreeModel) (r : Nat), Lts.run (viewStep h) {} calls = some m →
      m.root = some r → m.Coherent r ∧ ∀ x, (m.item x).isSome = true ↔ x = r ∨ Below m.children r x := by
  refine ⟨fun ops m r honce hfits hr hroot => ?_, fun h calls m r hr hroot => ?_⟩
  · exact (TreeModel.After.init.run honce hfits hr).ok.coherent hroot
  · have hm := tidy_run hr
    refine ⟨hm.ok.coherent hroot, fun x => ⟨fun hx => ?_, fun hx => ?_⟩⟩
    · obtain ⟨r', hr', hx⟩ := hm.shown x hx
      rw [hroot] at hr'
      cases hr'
      exact (within_iff.1 hx).imp Eq.symm id
    · rcases hx with rfl | hx
      · exact (hm.ok.top x hroot).1
      · exact hm.ok.live_of_below hx

/-- Three items under a root; the last is constructed under one parent and added to another. -/
def threeItems : List TreeOp :=
  [.new "a" (some 0), .addChild 0 1, .new "b" (some 1), .new "c" (some 0), .addChild 1 2, .addChild 1 3]

/-- A capture of one UDP packet. -/
def oneUdp : Pcap := { vecDump := [⟨(udpFrame 42).dump 0, .file 0⟩] }

/-- The tree of three items, and the one of the UDP packet. -/
theorem tree_navigation_coherent_udp :
    (∃ m : TreeModel, Lts.run TreeOp.step {} (.new "root" none :: (threeItems ++ [.setPacketTree 0])) = some m ∧
      m.Coherent 0) ∧
    ∃ m : TreeModel, Lts.run (viewStep .little) {} [(oneUdp, 0)] = some m ∧ m.Coherent 0 ∧ Below m.children 0 26 := by
  refine ⟨?_, ?_⟩
  · obtain ⟨m₀, hr₀, hlive⟩ : ∃ m, Lts.run TreeOp.step (({} : TreeModel).new "root" none) threeItems = some m ∧
        (m.item 0).isSome = true := Lts.run_reaches (by decide +kernel)
    obtain ⟨m, hr, hroot⟩ : ∃ m : TreeModel,
        Lts.run TreeOp.step {} (.new "root" none :: (threeItems ++ [.setPacketTree 0])) = some m ∧ m.root = some 0 :=
      Lts.run_reaches (by decide +kernel)
    have hordered : (({} : TreeModel).new "root" none).Ordered := fun p c hc => by
      rw [TreeModel.children_new] at hc
      cases hc
    have hal : Lts.Along TreeOp.step TreeOp.Fits (({} : TreeModel).new "root" none) (threeItems.map (TreeOp.shift 0)) :=
      hordered.along (n := 1) rfl
    have hfits : Lts.Along TreeOp.step TreeOp.Fits {} (.new "root" none :: (threeItems ++ [.setPacketTree 0])) := by
      refine (Lts.along_cons_of_step rfl).2 ⟨trivial, (Lts.along_append hr₀).2 ⟨hal, hlive, ?_⟩⟩
      split <;> trivial
    exact ⟨m, hr, tree_navigation_coherent.1 _ m 0 (by decide) hfits hr hroot⟩
  · have hd : Detail.read .little (ofList (oneUdp.treeData 0)) = some (wireDetail (oneUdp.treeData 0)) :=
      detail_ofList .little (by decide +kernel) (by decide +kernel) (by decide +kernel)
    obtain ⟨m, hm, hbuilt, _⟩ := startTreeMd_of_read TreeModel.Tidy.init hd
    have hr : Lts.run (viewStep .little) {} [(oneUdp, 0)] = some m := Lts.run_cons_eq_some.2 ⟨m, hm, rfl⟩
    obtain ⟨hcoherent, hall⟩ := tree_navigation_coherent.2 .little _ m 0 hr hbuilt.root
    have hitem : (m.item 26).isSome = true := by
      rw [← TreeModel.title_isSome]
      exact (congrArg Option.isSome (hbuilt.title 26)).trans (by decide +kernel)
    exact ⟨m, hr, hcoherent, ((hall 26).1 hitem).resolve_left (by decide)⟩

end MiniWireshark
