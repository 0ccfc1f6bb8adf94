import OpenRace.Analysis.Sections
import Mathlib.Data.List.Induction

/-! Sections end with their construct, and threads number their events on their own. -/

namespace OpenRace

open LLVM LanguageModel

variable {Ctx : Type} (getParent : Instruction → ParentBlock)

/-- The call that ends a sections construct, as any worksharing construct. -/
def Event.isForFini (event : Event Ctx) : Bool := event.ir.type == .openMPForFini

/-- The event lies in the body of a section: since an event in the section's block the thread has neither left a
construct nor met another section's block. Constructs are told by the number of those that have ended. -/
def InSectionBody (events : List (Event Ctx)) (block : ParentBlock) (construct id : ℕ) : Prop :=
  ∃ before start body, events.take (id + 1) = before ++ start :: body ∧ getParent start.ir.inst = block ∧
    block.isSectionsCase = true ∧ before.countP Event.isForFini = construct ∧
    ∀ event ∈ start :: body, event.isForFini = false ∧
      ((getParent event.ir.inst).isSectionsCase = true → getParent event.ir.inst = block)

def SameSectionBody (events1 events2 : List (Event Ctx)) (id1 id2 : ℕ) : Prop :=
  ∃ block construct, InSectionBody getParent events1 block construct id1 ∧
    InSectionBody getParent events2 block construct id2

/-- Going back from the latest event, a section's block, unless a construct's end is met before. -/
def openSection : List (Event Ctx) → Option ParentBlock
  | [] => none
  | event :: earlier =>
    if event.isForFini then none
    else if (getParent event.ir.inst).isSectionsCase then some (getParent event.ir.inst)
    else openSection earlier

def sectionBlock (events : List (Event Ctx)) (id : ℕ) : Option ParentBlock :=
  openSection getParent (events.take (id + 1)).reverse

def constructsEnded (events : List (Event Ctx)) (id : ℕ) : ℕ := (events.take (id + 1)).countP Event.isForFini

variable {getParent}

lemma inSectionBody_iff {events : List (Event Ctx)} {block : ParentBlock} {construct id : ℕ} :
    InSectionBody getParent events block construct id ↔
      sectionBlock getParent events id = some block ∧ constructsEnded events id = construct := by
  rw [InSectionBody, sectionBlock, constructsEnded]
  generalize events.take (id + 1) = met
  induction met using List.reverseRecOn with
  | nil => simp [openSection]
  | append_singleton met event ih =>
    rw [List.reverse_append, List.reverse_singleton, List.singleton_append, openSection, List.countP_append]
    constructor
    · rintro ⟨before, start, body, heq, hstart, hblock, hends, hbody⟩
      rcases List.eq_nil_or_concat body with rfl | ⟨body', last, rfl⟩
      · obtain ⟨rfl, hlast⟩ := List.append_inj' heq rfl
        obtain rfl := List.singleton_inj.mp hlast
        have hend := (hbody event List.mem_cons_self).1
        rw [if_neg (by rw [hend]; simp), hstart, if_pos hblock]
        simp [hend, hends]
      · rw [List.concat_eq_append] at heq hbody
        obtain ⟨rfl, hlast⟩ := List.append_inj' (heq.trans (List.append_assoc before (start :: body') [last]).symm) rfl
        obtain rfl := List.singleton_inj.mp hlast
        obtain ⟨hend, hcase⟩ := hbody event (by simp)
        obtain ⟨hopen, hcount⟩ := ih.mp ⟨before, start, body', rfl, hstart, hblock, hends,
          fun e hm => hbody e (by rw [← List.cons_append]; exact List.mem_append_left _ hm)⟩
        rw [if_neg (by rw [hend]; simp), hopen, hcount]
        refine ⟨?_, by simp [hend]⟩
        split
        · rw [hcase ‹_›]
        · rfl
    · rintro ⟨hopen, hends⟩
      by_cases hend : event.isForFini = true
      · rw [if_pos hend] at hopen
        cases hopen
      · have hzero : [event].countP Event.isForFini = 0 := by simpa using hend
        rw [hzero, Nat.add_zero] at hends
        rw [if_neg hend] at hopen
        by_cases hcase : (getParent event.ir.inst).isSectionsCase = true
        · rw [if_pos hcase] at hopen
          obtain rfl := Option.some.inj hopen
          refine ⟨met, event, [], rfl, rfl, hcase, hends, ?_⟩
          intro e hm
          rw [List.mem_singleton.mp hm]
          exact ⟨by simpa using hend, fun _ => rfl⟩
        · rw [if_neg hcase] at hopen
          obtain ⟨before, start, body, rfl, hstart, hblock, hends, hbody⟩ := ih.mpr ⟨hopen, hends⟩
          refine ⟨before, start, body ++ [event], by simp, hstart, hblock, hends, ?_⟩
          intro e hm
          rw [← List.cons_append, List.mem_append, List.mem_singleton] at hm
          rcases hm with hm | rfl
          · exact hbody e hm
          · exact ⟨by simpa using hend, fun h => absurd h hcase⟩

lemma sameSectionBody_iff {events1 events2 : List (Event Ctx)} {id1 id2 : ℕ} :
    SameSectionBody getParent events1 events2 id1 id2 ↔ (∃ block, sectionBlock getParent events1 id1 = some block ∧
      sectionBlock getParent events2 id2 = some block) ∧ constructsEnded events1 id1 = constructsEnded events2 id2 := by
  rw [SameSectionBody]
  simp only [inSectionBody_iff]
  constructor
  · rintro ⟨block, construct, ⟨h1, hc1⟩, h2, hc2⟩
    exact ⟨⟨block, h1, h2⟩, hc1.trans hc2.symm⟩
  · rintro ⟨⟨block, h1, h2⟩, hc⟩
    exact ⟨block, _, ⟨h1, rfl⟩, h2, hc.symm⟩

/-- The first thread has entered a section. Until it enters another one, no construct ends on either thread, and the
second thread, which is in the section at the same id, comes to no other. -/
structure KeepsStep (getParent : Instruction → ParentBlock) (events1 events2 : List (Event Ctx))
    (opening : Event Ctx) : Prop where
  block : sectionBlock getParent events2 opening.id = some (getParent opening.ir.inst)
  ended : constructsEnded events2 opening.id = constructsEnded events1 opening.id
  first : ∀ event ∈ events1, sectionAt getParent events1 event.id = some opening → event.isForFini = false
  second : ∀ event ∈ events2, event.id < events1.length → sectionAt getParent events1 event.id = some opening →
    event.isForFini = false ∧
      ((getParent event.ir.inst).isSectionsCase = true → getParent event.ir.inst = getParent opening.ir.inst)

/-- The threads keep step through every section that the first one enters at an id the second one comes to. -/
def InStep (getParent : Instruction → ParentBlock) (events1 events2 : List (Event Ctx)) : Prop :=
  ∀ opening ∈ events1, sectionAt getParent events1 opening.id = some opening → opening.id < events2.length →
    KeepsStep getParent events1 events2 opening

section Runs

variable {events : List (Event Ctx)} {opening event : Event Ctx} {id start : ℕ}

lemma id_getElem (hn : events.map Event.id = List.range events.length) (h : id < events.length) :
    events[id].id = id := by
  have hget : (events.map Event.id)[id]? = some id := by rw [hn, List.getElem?_range h]
  simpa [h] using hget

lemma getElem_id (hn : events.map Event.id = List.range events.length) (h : event ∈ events) :
    ∃ hlt : event.id < events.length, events[event.id] = event := by
  obtain ⟨index, hlt, rfl⟩ := List.getElem_of_mem h
  have hid := id_getElem hn hlt
  exact ⟨by omega, by simp only [hid]⟩

lemma take_succ_of_lt (h : id + 1 < events.length) :
    events.take (id + 1 + 1) = events.take (id + 1) ++ [events[id + 1]] := by
  rw [List.take_add_one, List.getElem?_eq_getElem h]
  rfl

lemma sectionAt_succ (h : id + 1 < events.length) :
    sectionAt getParent events (id + 1) = enter getParent (sectionAt getParent events id) events[id + 1] := by
  rw [sectionAt, take_succ_of_lt h, List.foldl_append]
  rfl

lemma sectionBlock_succ (h : id + 1 < events.length) (hend : events[id + 1].isForFini = false) :
    sectionBlock getParent events (id + 1) =
      if (getParent events[id + 1].ir.inst).isSectionsCase then some (getParent events[id + 1].ir.inst)
      else sectionBlock getParent events id := by
  rw [sectionBlock, take_succ_of_lt h, List.reverse_append, List.reverse_singleton, List.singleton_append, openSection,
    if_neg (by simp [hend])]
  rfl

lemma constructsEnded_succ (h : id + 1 < events.length) (hend : events[id + 1].isForFini = false) :
    constructsEnded events (id + 1) = constructsEnded events id := by
  rw [constructsEnded, take_succ_of_lt h, List.countP_append]
  simp [hend, constructsEnded]

lemma sectionBlock_at (hn : events.map Event.id = List.range events.length) (h : event ∈ events) :
    sectionBlock getParent events event.id = if event.isForFini then none
      else if (getParent event.ir.inst).isSectionsCase then some (getParent event.ir.inst)
      else openSection getParent (events.take event.id).reverse := by
  obtain ⟨hlt, hevent⟩ := getElem_id hn h
  have htake : events.take (event.id + 1) = events.take event.id ++ [event] := by
    rw [List.take_add_one, List.getElem?_eq_getElem hlt, hevent]
    rfl
  rw [sectionBlock, htake, List.reverse_append, List.reverse_singleton, List.singleton_append, openSection]

lemma quiet_of_sectionBlock {block : ParentBlock} (hn : events.map Event.id = List.range events.length)
    (h : event ∈ events) (hblock : sectionBlock getParent events event.id = some block) :
    event.isForFini = false ∧
      ((getParent event.ir.inst).isSectionsCase = true → getParent event.ir.inst = block) := by
  rw [sectionBlock_at hn h] at hblock
  split at hblock
  · cases hblock
  · rename_i hend
    refine ⟨by simpa using hend, fun hcase => ?_⟩
    rw [if_pos hcase] at hblock
    exact Option.some.inj hblock

lemma sectionBlock_lasts {block : ParentBlock} (hid : id < events.length) (hle : start ≤ id)
    (hblock : sectionBlock getParent events start = some block)
    (hquiet : ∀ index (h : index < events.length), start < index → index ≤ id → events[index].isForFini = false ∧
      ((getParent events[index].ir.inst).isSectionsCase = true → getParent events[index].ir.inst = block)) :
    sectionBlock getParent events id = some block ∧ constructsEnded events id = constructsEnded events start := by
  induction id, hle using Nat.le_induction with
  | base => exact ⟨hblock, rfl⟩
  | succ id hle ih =>
    obtain ⟨hprev, hended⟩ := ih (by omega) fun index h hlt hle' => hquiet index h hlt (by omega)
    obtain ⟨hend, hcase⟩ := hquiet (id + 1) hid (by omega) le_rfl
    rw [sectionBlock_succ hid hend, constructsEnded_succ hid hend, hprev, hended]
    refine ⟨?_, rfl⟩
    split
    · rw [hcase ‹_›]
    · rfl

lemma sectionAt_since (hn : events.map Event.id = List.range events.length) (hid : id < events.length)
    (h : sectionAt getParent events id = some opening) :
    opening ∈ events ∧ opening.id ≤ id ∧ (getParent opening.ir.inst).isSectionsCase = true ∧
      ∀ index, opening.id ≤ index → index ≤ id → sectionAt getParent events index = some opening := by
  induction id with
  | zero =>
    have hfirst : sectionAt getParent events 0 = enter getParent none events[0] := by
      rw [sectionAt, List.take_add_one, List.getElem?_eq_getElem hid]
      rfl
    have henter := hfirst.symm.trans h
    rw [enter] at henter
    split at henter
    · cases henter
      have hzero := id_getElem hn hid
      refine ⟨List.getElem_mem hid, hzero.le, ?_, ?_⟩
      · simpa [entersSection] using ‹entersSection getParent none events[0] = true›
      · intro index _ hindex
        rw [Nat.le_zero.1 hindex]
        exact h
    · cases henter
  | succ id ih =>
    have henter := (sectionAt_succ hid).symm.trans h
    rw [enter] at henter
    split at henter
    · rename_i henters
      cases henter
      have hsucc := id_getElem hn hid
      simp only [entersSection, Bool.and_eq_true] at henters
      refine ⟨List.getElem_mem hid, hsucc.le, henters.2, ?_⟩
      intro index hlow hhigh
      rw [hsucc] at hlow
      rw [Nat.le_antisymm hhigh hlow]
      exact h
    · obtain ⟨hmem, hle, hcase, hall⟩ := ih (by omega) henter
      refine ⟨hmem, by omega, hcase, fun index hlow hhigh => ?_⟩
      by_cases heq : index = id + 1
      · rw [heq]
        exact h
      · exact hall index hlow (by omega)

lemma case_within (hn : events.map Event.id = List.range events.length) (hid : id + 1 < events.length)
    (hprev : sectionAt getParent events id = some opening) (h : sectionAt getParent events (id + 1) = some opening)
    (hle : opening.id ≤ id) (hcase : (getParent events[id + 1].ir.inst).isSectionsCase = true) :
    getParent events[id + 1].ir.inst = getParent opening.ir.inst := by
  by_contra hne
  rw [sectionAt_succ hid, hprev, enter, if_pos (by simp [entersSection, hcase, hne])] at h
  have hsucc := id_getElem hn hid
  rw [Option.some.inj h] at hsucc
  omega

end Runs

section Soundness

variable {events1 events2 : List (Event Ctx)} {opening : Event Ctx} {id1 id2 : ℕ}

lemma KeepsStep.sameSectionBody (hn1 : events1.map Event.id = List.range events1.length)
    (hn2 : events2.map Event.id = List.range events2.length)
    (hkeeps : KeepsStep getParent events1 events2 opening) (hid1 : id1 < events1.length) (hid2 : id2 < events1.length)
    (hid2' : id2 < events2.length) (h1 : sectionAt getParent events1 id1 = some opening)
    (h2 : sectionAt getParent events1 id2 = some opening) :
    SameSectionBody getParent events1 events2 id1 id2 := by
  obtain ⟨hmem, hle1, hcase, hrun1⟩ := sectionAt_since hn1 hid1 h1
  obtain ⟨-, hle2, -, hrun2⟩ := sectionAt_since hn1 hid2 h2
  have hopen : sectionBlock getParent events1 opening.id = some (getParent opening.ir.inst) := by
    have hend := hkeeps.first opening hmem (hrun1 _ le_rfl hle1)
    rw [sectionBlock_at hn1 hmem, if_neg (by simp [hend]), if_pos hcase]
  obtain ⟨hblock1, hended1⟩ := sectionBlock_lasts hid1 hle1 hopen fun index h hlow hhigh => by
    obtain ⟨prev, rfl⟩ : ∃ prev, index = prev + 1 := ⟨index - 1, by omega⟩
    have hat := hrun1 (prev + 1) (by omega) hhigh
    refine ⟨hkeeps.first _ (List.getElem_mem h) (by rw [id_getElem hn1 h]; exact hat), ?_⟩
    exact case_within hn1 h (hrun1 prev (by omega) (by omega)) hat (by omega)
  obtain ⟨hblock2, hended2⟩ := sectionBlock_lasts hid2' hle2 hkeeps.block fun index h hlow hhigh => by
    have hindex := id_getElem hn2 h
    exact hkeeps.second _ (List.getElem_mem h) (by omega) (by rw [hindex]; exact hrun2 index (by omega) hhigh)
  rw [sameSectionBody_iff]
  exact ⟨⟨_, hblock1, hblock2⟩, by rw [hended1, hended2, hkeeps.ended]⟩

lemma keepsStep_of_same (hn1 : events1.map Event.id = List.range events1.length)
    (hn2 : events2.map Event.id = List.range events2.length) (hmem : opening ∈ events1)
    (hat : sectionAt getParent events1 opening.id = some opening) (hlt2 : opening.id < events2.length)
    (hsame : ∀ id1 id2, id1 < events1.length → id2 < events1.length → id2 < events2.length →
      sectionAt getParent events1 id1 = some opening → sectionAt getParent events1 id2 = some opening →
      SameSectionBody getParent events1 events2 id1 id2) :
    KeepsStep getParent events1 events2 opening := by
  obtain ⟨hlt, -⟩ := getElem_id hn1 hmem
  obtain ⟨-, -, hcase, -⟩ := sectionAt_since hn1 hlt hat
  obtain ⟨⟨block, hblock1, hblock2⟩, hended⟩ := sameSectionBody_iff.1 (hsame _ _ hlt hlt hlt2 hat hat)
  have hblock := (quiet_of_sectionBlock hn1 hmem hblock1).2 hcase
  constructor
  case block => rw [hblock2, hblock]
  case ended => exact hended.symm
  case first =>
    intro event hevent hin
    obtain ⟨hid, -⟩ := getElem_id hn1 hevent
    obtain ⟨⟨_, hbody, -⟩, -⟩ := sameSectionBody_iff.1 (hsame _ _ hid hlt hlt2 hin hat)
    exact (quiet_of_sectionBlock hn1 hevent hbody).1
  case second =>
    intro event hevent hid hin
    obtain ⟨hid2, -⟩ := getElem_id hn2 hevent
    obtain ⟨⟨block', hstart, hbody⟩, -⟩ := sameSectionBody_iff.1 (hsame _ _ hlt hid hid2 hat hin)
    have hblock' : block' = block := Option.some.inj (hstart.symm.trans hblock1)
    rw [hblock, ← hblock']
    exact quiet_of_sectionBlock hn2 hevent hbody

end Soundness

variable [DecidableEq Ctx]

namespace AfterSections

def parentBlock (inst : Instruction) : ParentBlock :=
  if inst.id = 0 then ⟨0, ".omp.sections.case"⟩ else ⟨1, "omp.loop.exit"⟩

def store (tid id : ℕ) : Event Unit :=
  ⟨.write, id, ⟨tid, []⟩, (), ⟨.store, .store id .undef false false, .other⟩, none⟩

def fini (tid id : ℕ) : Event Unit := ⟨.call, id, ⟨tid, []⟩, (), ⟨.openMPForFini, .other id, .other⟩, none⟩

/-- The thread stores in the only section of a construct, ends the construct and stores once more. -/
def thread (tid : ℕ) : ThreadTrace Unit := .mk ⟨tid, []⟩ [store tid 0, fini tid 1, store tid 2] []

/-- The thread stores in one section and then in the other. -/
def bothSections (tid : ℕ) : ThreadTrace Unit := .mk ⟨tid, []⟩ [store tid 0, store tid 1] []

def twoBlocks (inst : Instruction) : ParentBlock :=
  if inst.id = 0 then ⟨0, ".omp.sections.case"⟩ else ⟨1, ".omp.sections.case1"⟩

lemma bothSections_inStep : InStep twoBlocks (bothSections 1).events (bothSections 2).events := by
  intro opening hmem hat _
  have hcases : opening = store 1 0 ∨ opening = store 1 1 := by simpa [bothSections, ThreadTrace.events] using hmem
  rcases hcases with rfl | rfl
  · exact ⟨by decide +kernel, by decide +kernel, by decide +kernel, by decide +kernel⟩
  · exact ⟨by decide +kernel, by decide +kernel, by decide +kernel, by decide +kernel⟩

end AfterSections

end OpenRace
