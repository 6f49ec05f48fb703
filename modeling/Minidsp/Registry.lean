import Mathlib.Data.List.AList
import Minidsp.Transition

/-! The registry of discovered urls: a url that is registered again stays, one that is not is
dropped after five minutes, and both its coming and its going are announced. Times are in
nanoseconds of the monotonic clock. -/
namespace Minidsp

inductive DiscoveryEvent
  | added (id : String)
  | timeout (id : String) (lastSeen : ℕ)
  deriving DecidableEq, Repr

namespace Registry

structure Device where
  lastSeen : ℕ
  staticDevice : Bool
  deriving DecidableEq, Repr

namespace Device

def new (now : ℕ) : Device := ⟨now,false⟩
def newStatic (now : ℕ) : Device := ⟨now,true⟩
def markSeen (dev : Device) (now : ℕ) : Device := { dev with lastSeen := now }

/-- Whole seconds since the device was seen; none when the clock was behind. -/
def age (dev : Device) (now : ℕ) : ℕ := (now - dev.lastSeen)/1000000000

def keep (dev : Device) (now : ℕ) : Bool := dev.staticDevice || dev.age now < 5*60

end Device

/-- The hash map; the order of the entries stands for the order it is iterated in. -/
abbrev Devices := AList fun _ : String => Device

/-- Adds a device if it doesn't exist, or marks it as seen, with the event that is sent. -/
def upsert (devices : Devices) (dev : String) (staticDevice : Bool) (now : ℕ) :
    Devices × List DiscoveryEvent :=
  match devices.lookup dev with
  | none =>
    (devices.insert dev (if staticDevice then .newStatic now else .new now),[.added dev])
  | some device => (devices.insert dev (device.markSeen now),[])

/-- Removes devices that haven't been seen since 5 minutes. -/
def cleanup (devices : Devices) (now : ℕ) : Devices × List DiscoveryEvent :=
  (⟨devices.entries.filter fun e => e.2.keep now,
      devices.nodupKeys.sublist List.filter_sublist⟩,
    (devices.entries.filter fun e => !e.2.keep now).map fun e => .timeout e.1 e.2.lastSeen)

structure State where
  devices : Devices
  /-- The time of the last call. -/
  now : ℕ
  /-- What was sent to the subscriber. -/
  events : List DiscoveryEvent

/-- A call of `register`, with its time and the order in which it finds the entries. -/
structure Call where
  dev : String
  staticDevice : Bool
  now : ℕ
  order : Devices

def init : State := ⟨∅,0,[]⟩

def register (s : State) (c : Call) : Option State :=
  let (devices,sent) := upsert s.devices c.dev c.staticDevice c.now
  if s.now ≤ c.now ∧ c.order.entries.Perm devices.entries then
    let (devices,timeouts) := cleanup c.order c.now
    some ⟨devices,c.now,s.events ++ sent ++ timeouts⟩
  else none

/-! What one call does. -/

def fiveMinutes : ℕ := 300*1000000000

theorem Device.keep_iff {dev : Device} {now : ℕ} :
    dev.keep now ↔ dev.staticDevice ∨ now < dev.lastSeen + fiveMinutes := by
  have hage : dev.age now < 5*60 ↔ now < dev.lastSeen + fiveMinutes := by
    unfold age fiveMinutes
    omega
  rw [keep,Bool.or_eq_true,decide_eq_true_iff,hage]

def touched (devices : Devices) (c : Call) : Device :=
  match devices.lookup c.dev with
  | none => ⟨c.now,c.staticDevice⟩
  | some device => device.markSeen c.now

@[simp] theorem touched_lastSeen (devices : Devices) (c : Call) :
    (touched devices c).lastSeen = c.now := by
  unfold touched
  split <;> rfl

theorem touched_keep (devices : Devices) (c : Call) : (touched devices c).keep c.now :=
  Device.keep_iff.mpr (.inr (by rw [touched_lastSeen]; simp [fiveMinutes]))

theorem mem_devices {devices : Devices} {url : String} :
    url ∈ devices ↔ ∃ dev, dev ∈ devices.lookup url := by
  rw [← AList.lookup_isSome,Option.isSome_iff_exists]
  rfl

theorem upsert_eq (devices : Devices) (c : Call) :
    upsert devices c.dev c.staticDevice c.now =
      (devices.insert c.dev (touched devices c),
        if c.dev ∈ devices then [] else [.added c.dev]) := by
  unfold upsert touched
  cases h : devices.lookup c.dev with
  | none =>
    rw [if_neg (AList.lookup_eq_none.mp h)]
    cases c.staticDevice <;> rfl
  | some device =>
    rw [if_pos (AList.lookup_isSome.mp (by rw [h]; rfl))]

theorem mem_cleanup {devices : Devices} {now : ℕ} {url : String} {dev : Device} :
    dev ∈ (cleanup devices now).1.lookup url ↔ dev ∈ devices.lookup url ∧ dev.keep now := by
  rw [AList.mem_lookup_iff,AList.mem_lookup_iff]
  exact List.mem_filter

theorem mem_dropped {devices : Devices} {now : ℕ} {url : String} {dev : Device} :
    ⟨url,dev⟩ ∈ devices.entries.filter (fun e => !e.2.keep now) ↔
      dev ∈ devices.lookup url ∧ ¬dev.keep now := by
  rw [List.mem_filter,AList.mem_lookup_iff]
  simp

theorem timeout_mem_cleanup {devices : Devices} {now : ℕ} {url : String} {lastSeen : ℕ}
    (h : .timeout url lastSeen ∈ (cleanup devices now).2) :
    ∃ dev ∈ devices.lookup url, ¬dev.keep now := by
  obtain ⟨⟨url',dev⟩,hmem,he⟩ := List.mem_map.mp h
  obtain ⟨rfl,-⟩ := DiscoveryEvent.timeout.inj he
  obtain ⟨hdev,hdrop⟩ := mem_dropped.mp hmem
  exact ⟨dev,hdev,hdrop⟩

/-- Everything a call does: the entry is touched, and what is too old goes. -/
theorem register_spec {s t : State} {c : Call} (h : register s c = some t) :
    s.now ≤ c.now ∧ t.now = c.now ∧
    (∀ url dev, dev ∈ t.devices.lookup url ↔
      dev ∈ (s.devices.insert c.dev (touched s.devices c)).lookup url ∧ dev.keep c.now) ∧
    ∃ timeouts, t.events = s.events ++ (if c.dev ∈ s.devices then [] else [.added c.dev]) ++
        timeouts ∧
      ∃ order : Devices, timeouts = (cleanup order c.now).2 ∧
        order.entries.Perm (s.devices.insert c.dev (touched s.devices c)).entries := by
  simp only [register,upsert_eq] at h
  by_cases hcall : s.now ≤ c.now ∧
      c.order.entries.Perm (s.devices.insert c.dev (touched s.devices c)).entries
  · rw [if_pos hcall] at h
    obtain rfl := Option.some.inj h
    refine ⟨hcall.1,rfl,fun url dev => ?_,_,rfl,c.order,rfl,hcall.2⟩
    rw [mem_cleanup,AList.perm_lookup hcall.2]
  · rw [if_neg hcall] at h
    cases h

/-! Static devices. -/

section Static

open Transition

/-- From here on the url stays in the registry, and its timeout is never announced. -/
def Permanent (s : State) (url : String) : Prop :=
  ∀ calls t, run register s calls = some t →
    url ∈ t.devices ∧
      ∀ sent, t.events = s.events ++ sent → ∀ lastSeen, .timeout url lastSeen ∉ sent

theorem register_static {s t : State} {c : Call} {url : String} {dev : Device}
    (h : register s c = some t) (hdev : dev ∈ s.devices.lookup url) (hstatic : dev.staticDevice) :
    (∃ dev' ∈ t.devices.lookup url, dev'.staticDevice) ∧
      ∃ sent, t.events = s.events ++ sent ∧ ∀ lastSeen, .timeout url lastSeen ∉ sent := by
  obtain ⟨-,-,hlookup,timeouts,hevents,order,rfl,hperm⟩ := register_spec h
  have hentry : ∃ dev' ∈ (s.devices.insert c.dev (touched s.devices c)).lookup url,
      dev'.staticDevice := by
    by_cases hurl : url = c.dev
    · subst hurl
      refine ⟨touched s.devices c,AList.lookup_insert _,?_⟩
      simp only [touched,Option.mem_def.mp hdev]
      exact hstatic
    · exact ⟨dev,by rwa [AList.lookup_insert_ne hurl],hstatic⟩
  obtain ⟨dev',hdev',hstatic'⟩ := hentry
  have hkeep : ∀ now, dev'.keep now := fun now => Device.keep_iff.mpr (.inl hstatic')
  refine ⟨⟨dev',(hlookup url dev').mpr ⟨hdev',hkeep _⟩,hstatic'⟩,_,
    hevents.trans (List.append_assoc ..),fun lastSeen hmem => ?_⟩
  rcases List.mem_append.mp hmem with hadded | htimeout
  · split at hadded
    · cases hadded
    · cases List.mem_singleton.mp hadded
  · obtain ⟨old,hold,hdrop⟩ := timeout_mem_cleanup htimeout
    rw [AList.perm_lookup hperm] at hold
    cases Option.mem_unique hold hdev'
    exact hdrop (hkeep _)

theorem permanent_of_static {s : State} {url : String} {dev : Device}
    (hdev : dev ∈ s.devices.lookup url) (hstatic : dev.staticDevice) : Permanent s url := by
  intro calls t hrun
  have hinv := run_invariant
    (I := fun t => (∃ dev ∈ t.devices.lookup url, dev.staticDevice) ∧
      ∃ sent, t.events = s.events ++ sent ∧ ∀ lastSeen, .timeout url lastSeen ∉ sent)
    (fun s' c t' hI hstep => by
      obtain ⟨⟨dev',hdev',hstatic'⟩,sent,hsent,hnone⟩ := hI
      obtain ⟨hdev'',more,hmore,hnone'⟩ := register_static hstep hdev' hstatic'
      refine ⟨hdev'',sent ++ more,by rw [hmore,hsent,List.append_assoc],fun lastSeen hmem => ?_⟩
      rcases List.mem_append.mp hmem with h | h
      · exact hnone lastSeen h
      · exact hnone' lastSeen h)
    ⟨⟨dev,hdev,hstatic⟩,[],(List.append_nil _).symm,fun _ => List.not_mem_nil⟩ hrun
  obtain ⟨⟨dev',hdev',-⟩,sent,hsent,hnone⟩ := hinv
  refine ⟨mem_devices.mpr ⟨dev',hdev'⟩,fun sent' hsent' => ?_⟩
  rw [hsent] at hsent'
  exact List.append_cancel_left hsent' ▸ hnone

def callOn (s : State) (dev : String) (staticDevice : Bool) (now : ℕ) : Call :=
  ⟨dev,staticDevice,now,(upsert s.devices dev staticDevice now).1⟩

theorem register_callOn {s : State} (dev : String) (staticDevice : Bool) {now : ℕ}
    (hnow : s.now ≤ now) : ∃ t, register s (callOn s dev staticDevice now) = some t :=
  ⟨_,if_pos ⟨hnow,.refl _⟩⟩

/-- An entry that is not static times out when only other urls are registered. -/
theorem not_permanent {s : State} {url : String} {dev : Device}
    (hdev : dev ∈ s.devices.lookup url) (hstatic : ¬dev.staticDevice) : ¬Permanent s url := by
  intro hperm
  have hother : ∃ other : String, url ≠ other := by
    by_cases h : url = ""
    · exact ⟨"a",by simp [h]⟩
    · exact ⟨"",h⟩
  obtain ⟨other,hother⟩ := hother
  obtain ⟨t,ht⟩ := register_callOn (s := s) other false
    (show s.now ≤ s.now+dev.lastSeen+fiveMinutes by omega)
  obtain ⟨-,-,hlookup,-⟩ := register_spec ht
  obtain ⟨dev',hdev'⟩ := mem_devices.mp (hperm [_] t (run_cons_iff.mpr ⟨t,ht,rfl⟩)).1
  obtain ⟨hold,hkeep⟩ := (hlookup url dev').mp hdev'
  have hurl : url ≠ (callOn s other false (s.now+dev.lastSeen+fiveMinutes)).dev := hother
  rw [AList.lookup_insert_ne hurl] at hold
  cases Option.mem_unique hold hdev
  rcases Device.keep_iff.mp hkeep with h | h
  · exact hstatic h
  · simp only [callOn] at h
    omega

/-- After a call for a static device its url is never dropped. -/
def StaysStatic (s : State) (c : Call) : Prop :=
  c.staticDevice → ∀ t, register s c = some t → Permanent t c.dev

/-- A call for a static device finds no entry, or one that is static. -/
def NewOrStatic (s : State) (c : Call) : Prop :=
  c.staticDevice → ∀ dev ∈ s.devices.lookup c.dev, dev.staticDevice

theorem staysStatic_iff_newOrStatic {s t : State} {c : Call} (h : register s c = some t) :
    StaysStatic s c ↔ NewOrStatic s c := by
  obtain ⟨-,-,hlookup,-⟩ := register_spec h
  have hentry : touched s.devices c ∈ t.devices.lookup c.dev :=
    (hlookup _ _).mpr ⟨AList.lookup_insert _,touched_keep _ _⟩
  constructor
  · intro hstays hc dev hdev
    by_contra hstatic
    refine not_permanent hentry ?_ (hstays hc t h)
    simp only [touched,Option.mem_def.mp hdev]
    exact hstatic
  · intro hnew hc t' ht'
    obtain rfl : t = t' := Option.some.inj (h.symm.trans ht')
    refine permanent_of_static hentry ?_
    unfold touched
    split
    · exact hc
    · rename_i device hdevice
      exact hnew hc device hdevice

/-- In a run every static device stays exactly when none was discovered before its call. -/
theorem static_stays_iff {calls : List Call} {s : State} (h : run register init calls = some s) :
    Along register StaysStatic init calls ↔ Along register NewOrStatic init calls :=
  along_congr_of_run (I := fun _ => True) (fun _ _ _ _ _ => trivial)
    (fun _ _ _ _ => staysStatic_iff_newOrStatic) trivial h

/-- The state after the calls of discovery, and of the configuration, for one url. -/
def discovered : State := ⟨⟨[⟨"mock:",⟨5,false⟩⟩],by simp⟩,5,[.added "mock:"]⟩
def configured : State := ⟨⟨[⟨"mock:",⟨5,true⟩⟩],by simp⟩,5,[.added "mock:"]⟩

theorem register_discovered : register init (callOn init "mock:" false 5) = some discovered := by
  rfl

theorem register_configured : register init (callOn init "mock:" true 5) = some configured := by
  rfl

theorem configured_stays :
    Along register StaysStatic init [callOn init "mock:" true 5,callOn configured "mock:" false 9] :=
  (static_stays_iff (run_cons_iff.mpr ⟨configured,register_configured,
    run_cons_iff.mpr ⟨_,rfl,rfl⟩⟩)).mpr
    (by simp [Along,NewOrStatic,callOn,init,configured])

/-- Discovery came first: the url is not marked static, and times out. -/
theorem discovered_times_out :
    ¬Along register StaysStatic init
      [callOn init "mock:" false 5,callOn discovered "mock:" true 9] := by
  rw [along_cons_of register_discovered]
  rintro ⟨-,hstays,-⟩
  obtain ⟨t,ht⟩ := register_callOn (s := discovered) "mock:" true
    (show discovered.now ≤ 9 by decide)
  exact absurd ((staysStatic_iff_newOrStatic ht).mp hstays rfl ⟨5,false⟩ rfl) (by decide)

end Static

end Registry
end Minidsp
