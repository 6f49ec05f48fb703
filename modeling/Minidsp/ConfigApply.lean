import Minidsp.Atomicity
import Minidsp.Settings

/-! A configuration that is applied to a device that stores what it is sent, alone and while
others are applied. -/
namespace Minidsp

open Buffer Dialogue

namespace Model

section
variable {σ : Type} (dev : Dialogue.Device σ Commands Responses MiniDSPError)
variable (memory : σ → Peq.Memory) (room : UInt8 → ℕ)

/-- The device answers what it is asked, and stores what it is sent. -/
abbrev Stores : Prop := Follows (Commands.Answers room) Commands.puts dev Peq.Memory.put memory

end

section
variable (dsp : MiniDSP) (room : UInt8 → ℕ)

def Setting.at? (setting : Setting) (cell : Cell) : Option (Value ⊕ Bool) :=
  (setting.puts dsp).findSome? fun p => p.at? cell

def settings (items : List Item) : List Setting := (performed dsp room items).filterMap Item.setting

/-- What is seen in a cell after some settings: the last of those that put something there. -/
def seen (settings : List Setting) (cell : Cell) (before : Value ⊕ Bool) : Value ⊕ Bool :=
  ((settings.filterMap fun s => s.at? dsp cell).getLast?).getD before

def Apart (settings : List Setting) : Prop :=
  ∀ s ∈ settings, ∀ s' ∈ settings, ∀ cell, s.at? dsp cell ≠ none → s'.at? dsp cell ≠ none →
    s.control = s'.control

end

section
variable {σ : Type} {dev : Dialogue.Device σ Commands Responses MiniDSPError}
variable {memory : σ → Peq.Memory} {room : UInt8 → ℕ} {dsp : MiniDSP} {floats : Floats}
variable {items : List Item} {polls : ℕ} {s t u : σ}

theorem Setting.puts_cases (dsp : MiniDSP) (setting : Setting) :
    setting.puts dsp = [] ∨ ∃ p, setting.puts dsp = [p] := by
  rw [Setting.puts]
  cases h : setting.command dsp with
  | error x => exact .inl rfl
  | ok q =>
    obtain ⟨⟨p,hp⟩,-⟩ := command_puts h
    exact .inr ⟨p,by simp [hp]⟩

theorem Setting.puts_length (setting : Setting) : (setting.puts dsp).length ≤ 1 := by
  obtain h | ⟨p,h⟩ := setting.puts_cases dsp <;> simp [h]

theorem Setting.filterMap_puts (setting : Setting) (cell : Cell) :
    (setting.puts dsp).filterMap (fun p => p.at? cell) = (setting.at? dsp cell).toList := by
  obtain h | ⟨p,h⟩ := setting.puts_cases dsp
  · rw [Setting.at?,h]
    rfl
  · rw [Setting.at?,h]
    cases hp : p.at? cell <;> simp [hp]

theorem settings_puts (items : List Item) : (performed dsp room items).flatMap (Item.puts dsp) =
    (settings dsp room items).flatMap (Setting.puts dsp) := by
  rw [settings]
  induction performed dsp room items with
  | nil => rfl
  | cons item items ih =>
    rw [List.flatMap_cons,ih,Item.puts]
    cases h : item.setting with
    | none => rw [List.filterMap_cons_none h]; rfl
    | some setting =>
      rw [List.filterMap_cons_some h,Option.toList_some,List.flatMap_singleton,List.flatMap_cons]

theorem filterMap_flatMap_puts (settings : List Setting) (cell : Cell) :
    (settings.flatMap (Setting.puts dsp)).filterMap (fun p => p.at? cell) =
      settings.filterMap fun s => s.at? dsp cell := by
  induction settings with
  | nil => rfl
  | cons setting settings ih =>
    rw [List.flatMap_cons,List.filterMap_append,ih,Setting.filterMap_puts,List.filterMap_cons]
    cases setting.at? dsp cell <;> rfl

theorem read_puts (items : List Item) (m : Peq.Memory) (cell : Cell) :
    (((performed dsp room items).flatMap (Item.puts dsp)).foldl Peq.Memory.put m).read cell =
      seen dsp (settings dsp room items) cell (m.read cell) := by
  refine (read_foldl Peq.Memory.put (fun m => m.read cell) (fun p => p.at? cell)
    (fun m p => Peq.Memory.read_put m p cell) _ m).trans ?_
  rw [settings_puts,filterMap_flatMap_puts]
  rfl

structure Holds (dsp : MiniDSP) (settings : List Setting) (m m' : Peq.Memory) : Prop where
  last : ∀ before setting after, settings = before ++ setting :: after →
    (∀ s ∈ after, s.control ≠ setting.control) →
      ∀ cell v, setting.at? dsp cell = some v → m'.read cell = v
  kept : ∀ cell, (∀ s ∈ settings, s.at? dsp cell = none) → m'.read cell = m.read cell

/-- What the last setting of a control puts into a cell is what is seen there. -/
theorem seen_last {before after : List Setting} {setting : Setting} {cell : Cell}
    {v w : Value ⊕ Bool} (hapart : ∀ s ∈ after, s.at? dsp cell ≠ none → s.control = setting.control)
    (hafter : ∀ s ∈ after, s.control ≠ setting.control) (hv : setting.at? dsp cell = some v) :
    seen dsp (before ++ setting :: after) cell w = v := by
  have hnone : after.filterMap (fun s => s.at? dsp cell) = [] := by
    refine List.filterMap_eq_nil_iff.mpr fun s hs => ?_
    by_contra hcell
    exact hafter s hs (hapart s hs hcell)
  rw [seen,List.filterMap_append,
    List.filterMap_cons_some (f := fun s : Setting => s.at? dsp cell) hv,hnone,
    List.getLast?_concat]
  rfl

theorem holds_of_read {settings : List Setting} {m m' : Peq.Memory} (hapart : Apart dsp settings)
    (h : ∀ cell, m'.read cell = seen dsp settings cell (m.read cell)) :
    Holds dsp settings m m' where
  last before setting after hsettings hafter cell v hv := by
    have hsome : setting.at? dsp cell ≠ none := by rw [hv]; exact nofun
    rw [h,hsettings]
    exact seen_last (fun s hs hcell => hapart s (by simp [hsettings,hs]) setting
      (by simp [hsettings]) cell hcell hsome) hafter hv
  kept cell hcell := by
    rw [h,seen,List.filterMap_eq_nil_iff.mpr hcell]
    rfl

theorem Config.apply_run (floats : Floats) (hdev : Stores dev memory room) (config : Config)
    (hstatus : run dev (forM config.masterStatus fun status => status.apply polls dsp) s =
      (.ok (),u)) :
    ∃ t, run dev (config.apply dsp floats polls) s =
        (Outcome.of (outcome dsp room (config.items dsp floats)),t) ∧
      ∀ cell, (memory t).read cell =
        seen dsp (settings dsp room (config.items dsp floats)) cell ((memory u).read cell) := by
  obtain ⟨hout,hmemory⟩ := (performAll_yields (config.items dsp floats)).run hdev u
  refine ⟨(run dev (performAll dsp (config.items dsp floats)) u).2,?_,fun cell => ?_⟩
  · rw [Config.apply_eq,run_bind_ok hstatus]
    exact Prod.ext hout rfl
  · rw [hmemory]
    exact read_puts _ _ cell

/-- A configuration is applied up to the first item that cannot be performed, with whose error
it ends: of the settings so far the last of each control is in force, and nothing else has
changed since the master status was set. -/
theorem Config.apply_settles (hdev : Stores dev memory room) (config : Config)
    (hstatus : run dev (forM config.masterStatus fun status => status.apply polls dsp) s =
      (.ok (),u))
    (hapart : Apart dsp (settings dsp room (config.items dsp floats))) :
    ∃ t, run dev (config.apply dsp floats polls) s =
        (Outcome.of (outcome dsp room (config.items dsp floats)),t) ∧
      Holds dsp (settings dsp room (config.items dsp floats)) (memory u) (memory t) := by
  obtain ⟨t,hrun,hread⟩ := config.apply_run floats hdev hstatus
  exact ⟨t,hrun,holds_of_read hapart hread⟩

def deskDsp : MiniDSP := ⟨{ Device.generic with
    outputs := [⟨⟨0x10,some 0x11⟩,none,none,0x12,[0x100,0x105],none,none,none⟩,
      ⟨⟨0x20,none⟩,none,none,0x22,[],none,none,none⟩] },⟨10,1,13,100,900000⟩⟩

def Output.onlyMute (i : ℕ) (value : Bool) : Output :=
  ⟨some i,⟨some value,none⟩,[],none,none,[],none,none⟩

/-- Everything is stored, and there is no room for filters. -/
def storing : Service.Peer Peq.Memory := fun m q =>
  (Service.Peer.blank.answer q,(q.puts.getD []).foldl Peq.Memory.put m)

theorem storing_fitting : storing.Fitting := fun _ q => Service.Peer.blank_fitting [] q

theorem storing_stores : Stores storing.device id fun _ => 0 where
  answers s q := by
    refine ⟨_,rfl,storing_fitting s q,?_⟩
    rintro index size rfl hsize
    obtain rfl := Responses.firLoadSize.inj hsize
    rfl
  effects s q ps hq := by
    show (q.puts.getD []).foldl Peq.Memory.put s = _
    rw [hq]
    rfl

/-- Both outputs are muted, one is not after all, and there is no eighth. -/
def muteTwice : Config := ⟨none,[],[Output.onlyMute 0 true,Output.onlyMute 1 true,
  Output.onlyMute 0 false,Output.onlyMute 7 true]⟩

def mutesTwice : List Setting := [.word (.mute (.output 0)) (.int 1),
  .word (.mute (.output 1)) (.int 1),.word (.mute (.output 0)) (.int 2)]

theorem cell_of_words {addr : Addr} {data : List Value} {k : ℕ}
    (h : (Put.words addr data).at? (.word k) ≠ none) :
    addr.val.toNat ≤ k ∧ k < addr.val.toNat + data.length := by
  rw [Put.at?] at h
  split at h
  · rename_i hle
    refine ⟨hle,?_⟩
    by_contra hstop
    rw [List.getElem?_eq_none (by omega)] at h
    exact h rfl
  · exact absurd rfl h

theorem cell_of_word {addr : Addr} {value : Value} {cell : Cell}
    (h : (Put.words addr [value]).at? cell ≠ none) : cell = .word addr.val.toNat := by
  cases cell with
  | flag i => exact absurd rfl h
  | word i =>
    have hi := cell_of_words h
    rw [List.length_singleton] at hi
    exact congrArg Cell.word (by omega)

theorem cell_of_mute {i : ℕ} {value : Value} {cell : Cell} {a : UInt16}
    (ha : WordControl.addr deskDsp (.mute (.output i)) = .ok a)
    (h : (Setting.word (.mute (.output i)) value).at? deskDsp cell ≠ none) :
    cell = .word a.toNat := by
  rw [Setting.at?,Setting.puts,Setting.command,ha] at h
  have hput : (Put.words (deskDsp.addr a) [value]).at? cell ≠ none := by
    intro hnone
    exact h ((List.findSome?_cons ..).trans (by rw [hnone]; rfl))
  exact cell_of_word hput

theorem mutesTwice_apart : Apart deskDsp mutesTwice := by
  have hcell : ∀ s ∈ mutesTwice, ∀ cell, s.at? deskDsp cell ≠ none →
      (s.control = .word (.mute (.output 0)) ∧ cell = .word 0x10) ∨
        (s.control = .word (.mute (.output 1)) ∧ cell = .word 0x20) := by
    intro s hs cell h
    simp only [mutesTwice,List.mem_cons,List.not_mem_nil,or_false] at hs
    rcases hs with rfl | rfl | rfl
    · exact .inl ⟨rfl,cell_of_mute (a := 0x10) rfl h⟩
    · exact .inr ⟨rfl,cell_of_mute (a := 0x20) rfl h⟩
    · exact .inl ⟨rfl,cell_of_mute (a := 0x10) rfl h⟩
  intro s hs s' hs' cell h h'
  obtain ⟨hc,rfl⟩ | ⟨hc,rfl⟩ := hcell s hs cell h
  · obtain ⟨hc',-⟩ | ⟨-,hcell'⟩ := hcell s' hs' _ h'
    · rw [hc,hc']
    · cases hcell'
  · obtain ⟨-,hcell'⟩ | ⟨hc',-⟩ := hcell s' hs' _ h'
    · cases hcell'
    · rw [hc,hc']

/-- The mutes before the output that is not there are in force. -/
theorem apply_settles_up_to_missing : ∃ t,
    run storing.device (muteTwice.apply deskDsp Xover.noFloats 0) Peq.untouched =
      (.error .outOfRange,t) ∧ Holds deskDsp mutesTwice Peq.untouched t :=
  Config.apply_settles storing_stores muteTwice rfl mutesTwice_apart

theorem seen_seen (settings : List Setting) (cell : Cell) (before : Value ⊕ Bool) :
    seen dsp settings cell (seen dsp settings cell before) = seen dsp settings cell before := by
  rw [seen,seen]
  cases (settings.filterMap fun s => s.at? dsp cell).getLast? <;> rfl

/-- The cells are all there is to a memory. -/
theorem ext_read {m m' : Peq.Memory} (h : ∀ cell, m.read cell = m'.read cell) : m = m' := by
  obtain ⟨words,bypassed⟩ := m
  obtain ⟨words',bypassed'⟩ := m'
  have hwords : words = words' := funext fun i => Sum.inl.inj (h (.word i))
  have hbypassed : bypassed = bypassed' := funext fun i => Sum.inr.inj (h (.flag i))
  rw [hwords,hbypassed]

/-- To apply a configuration a second time changes nothing, and ends as the first time. -/
theorem Config.apply_twice (hdev : Stores dev memory room) (config : Config)
    (hnone : config.masterStatus = none) (s : σ) :
    ∃ x t t', run dev (config.apply dsp floats polls) s = (x,t) ∧
      run dev (config.apply dsp floats polls) t = (x,t') ∧ memory t' = memory t := by
  have hrun : ∀ s : σ, run dev (forM config.masterStatus fun status => status.apply polls dsp) s =
      (.ok (),s) := by
    intro s
    rw [hnone]
    rfl
  obtain ⟨t,ht,hread⟩ := config.apply_run floats hdev (hrun s)
  obtain ⟨t',ht',hread'⟩ := config.apply_run floats hdev (hrun t)
  refine ⟨_,t,t',ht,ht',ext_read fun cell => ?_⟩
  rw [hread',hread,seen_seen]

theorem apply_twice_muteTwice : ∃ x t t',
    run storing.device (muteTwice.apply deskDsp Xover.noFloats 0) Peq.untouched = (x,t) ∧
      run storing.device (muteTwice.apply deskDsp Xover.noFloats 0) t = (x,t') ∧ t' = t :=
  Config.apply_twice storing_stores muteTwice rfl Peq.untouched

/-! Several configurations, through the service. -/

section Parallel

variable {ι : Type} [DecidableEq ι] {peer : Service.Peer σ} (configs : ι → Config)

/-- No other configuration reaches the cell. -/
def Sole (dsp : MiniDSP) (floats : Floats) (room : UInt8 → ℕ) (c : ι) (cell : Cell) : Prop :=
  ∀ c', c' ≠ c → ∀ setting ∈ settings dsp room ((configs c').items dsp floats),
    setting.at? dsp cell = none

variable {configs}

/-- The writes of configurations applied at the same time: of each those of the first of its
settings, and those of all of them if it has come to its own end. -/
theorem parallel_log (hp : peer.Fitting) (hdev : Stores peer.device memory room)
    (hnone : ∀ c, (configs c).masterStatus = none) {d : σ} {as : List (Service.Label ι)}
    {s : Service.State ι σ Unit}
    (h : Transition.run (Service.step peer)
      (Service.start (fun c => (configs c).apply dsp floats polls) d) as = some s)
    (hf : Transition.Along (Service.step peer) Service.Faithful
      (Service.start (fun c => (configs c).apply dsp floats polls) d) as)
    (hguard : s.guard = none) (htaken : s.taken = s.mux.sink.length) :
    ∃ log : List (ι × Put), memory s.device = (log.map Prod.snd).foldl Peq.Memory.put (memory d) ∧
      ∀ c, ∃ n, Shared.own c log =
          ((settings dsp room ((configs c).items dsp floats)).take n).flatMap (Setting.puts dsp) ∧
        ∀ x, s.tasks c = .done x →
          (x = Outcome.of (outcome dsp room ((configs c).items dsp floats)) ∧
            (settings dsp room ((configs c).items dsp floats)).length ≤ n) ∨
          ((∃ e, x = .error e) ∧ ¬∀ a ∈ as, a.Smooth) := by
  obtain ⟨fates,ab,hrun,href,hsm⟩ := Service.run_refines hp (Service.start_refines _) hf h
  have hdevice := href.device hguard htaken
  obtain ⟨_,_,_,_,-,-,hclients,-⟩ := href
  have hstart : ∀ c, Shared.Along (Commands.Answers room) Commands.puts (¬∀ a ∈ as, a.Smooth)
      ((configs c).apply dsp floats polls)
      (· = Outcome.of (outcome dsp room ((configs c).items dsp floats)))
      ((settings dsp room ((configs c).items dsp floats)).flatMap (Setting.puts dsp))
      (Shared.own c []) := by
    intro c
    refine .inl ⟨_,(List.nil_append _).symm,?_⟩
    rw [Config.apply_eq,hnone,← settings_puts]
    exact performAll_yields _
  have hfaults : ∀ f ∈ fates, f.2 ≠ .answered → ¬∀ a ∈ as, a.Smooth :=
    fun f hfate hne hall => hne ((hsm (Service.start_healthy _ d) hall).2 f hfate)
  obtain ⟨log,hmemory,halong⟩ := Shared.run_along hdev hfaults hstart hrun
  rw [List.nil_append] at halong
  refine ⟨log,hdevice ▸ hmemory,fun c => ?_⟩
  have hend : ∀ x, s.tasks c = .done x →
      (x = Outcome.of (outcome dsp room ((configs c).items dsp floats)) ∧ Shared.own c log =
        (settings dsp room ((configs c).items dsp floats)).flatMap (Setting.puts dsp)) ∨
      ((∃ e, x = .error e) ∧ ¬∀ a ∈ as, a.Smooth) := by
    intro x hx
    have hdone := halong c
    rw [hclients,hx] at hdone
    obtain hown | ⟨hfault,herror⟩ := hdone.done
    · exact .inl hown
    · exact .inr ⟨herror,hfault⟩
  by_cases hall : Shared.own c log =
    (settings dsp room ((configs c).items dsp floats)).flatMap (Setting.puts dsp)
  · exact ⟨_,by rw [List.take_length,hall],fun x hx => (hend x hx).imp_left fun h => ⟨h.1,le_rfl⟩⟩
  · obtain ⟨n,hn⟩ := take_of_prefix Setting.puts_length (halong c).isPrefix
    exact ⟨n,hn,fun x hx => (hend x hx).imp_left fun h => absurd h.2 hall⟩

theorem read_log {log : List (ι × Put)} {c : ι} {written : List Setting} {cell : Cell}
    {m : Peq.Memory} (hown : Shared.own c log = written.flatMap (Setting.puts dsp))
    (hothers : ∀ c', c' ≠ c → ∀ p ∈ Shared.own c' log, p.at? cell = none) :
    ((log.map Prod.snd).foldl Peq.Memory.put m).read cell =
      seen dsp written cell (m.read cell) := by
  refine (read_foldl Peq.Memory.put (fun m => m.read cell) (fun p => p.at? cell)
    (fun m p => Peq.Memory.read_put m p cell) _ _).trans ?_
  rw [Shared.own_filterMap hothers,hown,filterMap_flatMap_puts]
  rfl

theorem not_put {written : List Setting} {cell : Cell} {p : Put}
    (h : ∀ setting ∈ written, setting.at? dsp cell = none)
    (hp : p ∈ written.flatMap (Setting.puts dsp)) : p.at? cell = none := by
  obtain ⟨setting,hsetting,hput⟩ := List.mem_flatMap.mp hp
  exact List.findSome?_eq_none_iff.mp (h setting hsetting) p hput

/-- Configurations applied at the same time, over a link that may fail: each has had the first
of its settings, all of them if it has come to its own end, and a cell that no other reaches
holds the last of those. -/
theorem applied_in_parallel (hp : peer.Fitting) (hdev : Stores peer.device memory room)
    (configs : ι → Config) (hnone : ∀ c, (configs c).masterStatus = none) (d : σ)
    (as : List (Service.Label ι)) (s : Service.State ι σ Unit)
    (h : Transition.run (Service.step peer)
      (Service.start (fun c => (configs c).apply dsp floats polls) d) as = some s)
    (hf : Transition.Along (Service.step peer) Service.Faithful
      (Service.start (fun c => (configs c).apply dsp floats polls) d) as)
    (hguard : s.guard = none) (htaken : s.taken = s.mux.sink.length) :
    ∃ n : ι → ℕ, ∀ c,
      (∀ cell, Sole configs dsp floats room c cell → (memory s.device).read cell =
        seen dsp ((settings dsp room ((configs c).items dsp floats)).take (n c)) cell
          ((memory d).read cell)) ∧
      ∀ x, s.tasks c = .done x →
        (x = Outcome.of (outcome dsp room ((configs c).items dsp floats)) ∧
          (settings dsp room ((configs c).items dsp floats)).length ≤ n c) ∨
        ((∃ e, x = .error e) ∧ ¬∀ a ∈ as, a.Smooth) := by
  obtain ⟨log,hmemory,hparts⟩ := parallel_log hp hdev hnone h hf hguard htaken
  choose n hown hend using hparts
  refine ⟨n,fun c => ⟨fun cell hsole => ?_,hend c⟩⟩
  rw [hmemory]
  refine read_log (hown c) fun c' hc' p hput => ?_
  rw [hown c'] at hput
  exact not_put (fun setting hsetting => hsole c' hc' setting (List.mem_of_mem_take hsetting)) hput

end Parallel

def muteOne (c : Bool) : Config := ⟨none,[],[Output.onlyMute (if c then 1 else 0) true]⟩

/-- One is given up after its command has left, the other ends well. -/
theorem applied_in_parallel_after_timeout :
    let tasks : Bool → Call Unit := fun c => (muteOne c).apply deskDsp Xover.noFloats 0
    let as : List (Service.Label Bool) := [.acquire false,.poll .enqueue,.poll .lock,.poll .send,
      .timeout,.acquire true,.poll .enqueue,.poll .lock,.poll .send,.poll .flush,.answer,.answer,
      .receive,.receive,.poll .resume,.finish]
    ∃ s, Transition.run (Service.step storing) (Service.start tasks Peq.untouched) as = some s ∧
      ∃ n : Bool → ℕ, ∀ c,
        (∀ cell, Sole muteOne deskDsp Xover.noFloats (fun _ => 0) c cell → s.device.read cell =
          seen deskDsp
            ((settings deskDsp (fun _ => 0) ((muteOne c).items deskDsp Xover.noFloats)).take (n c))
            cell (Peq.untouched.read cell)) ∧
        ∀ x, s.tasks c = .done x →
          (x = Outcome.of
              (outcome deskDsp (fun _ => 0) ((muteOne c).items deskDsp Xover.noFloats)) ∧
            (settings deskDsp (fun _ => 0) ((muteOne c).items deskDsp Xover.noFloats)).length ≤
              n c) ∨
          ((∃ e, x = .error e) ∧ ¬∀ a ∈ as, a.Smooth) := by
  intro tasks as
  have hrun : (Transition.run (Service.step storing) (Service.start tasks Peq.untouched) as).map
      (fun s => (s.guard,s.taken,s.mux.sink.length)) = some (none,2,2) := rfl
  obtain ⟨s,hs,hrest⟩ := Option.map_eq_some_iff.mp hrun
  obtain ⟨hguard,htaken⟩ := Prod.mk.inj hrest
  obtain ⟨htaken,hsink⟩ := Prod.mk.inj htaken
  have hf : Transition.Along (Service.step storing) Service.Faithful
      (Service.start tasks Peq.untouched) as := by
    iterate 4 refine (Transition.along_cons_of rfl).mpr ⟨trivial,?_⟩
    refine (Transition.along_cons_of rfl).mpr ⟨?_,?_⟩
    · rintro c k ⟨rfl,rfl⟩ - q
      exact nofun
    iterate 10 refine (Transition.along_cons_of rfl).mpr ⟨trivial,?_⟩
    exact (Transition.along_cons_of rfl).mpr ⟨trivial,trivial⟩
  exact ⟨s,hs,applied_in_parallel storing_fitting storing_stores muteOne (fun _ => rfl)
    Peq.untouched as s hs hf hguard (htaken.trans hsink.symm)⟩

end
end Model
end Minidsp
