import Minidsp.DeviceInfo
import Minidsp.Registry
import Minidsp.Transport

/-! The device manager keeps a list of devices in step with the registry, by the events of the
registry alone. -/
namespace Minidsp

structure DeviceHandle where
  deviceInfo : DeviceInfo
  productName : String
  deriving DecidableEq, Repr

/-- The url a device task connects to, and its handle while it is connected. -/
structure DeviceInner where
  url : String
  handle : Option DeviceHandle
  deriving DecidableEq, Repr

namespace DeviceManager

structure Device where
  url : String
  inner : ℕ
  deriving DecidableEq, Repr

end DeviceManager

/-- `inners` has the state of every device there ever was. -/
structure DeviceManager where
  devices : List DeviceManager.Device
  inners : List DeviceInner
  deriving DecidableEq, Repr

namespace DeviceManager

def new : DeviceManager := ⟨[],[]⟩

def handle (mgr : DeviceManager) (d : Device) : Option DeviceHandle :=
  mgr.inners[d.inner]?.bind (·.handle)

def toMinidsp (mgr : DeviceManager) (d : Device) : Except MiniDSPError DeviceInfo :=
  match mgr.handle d with
  | none => .error .deviceNotReady
  | some h => .ok h.deviceInfo

/-- The device with this serial, or else the one at this position. -/
def getDevice (mgr : DeviceManager) (index : ℕ) : Option Device :=
  match mgr.devices.find? fun d => match mgr.handle d with
    | some h => h.deviceInfo.serial == UInt32.ofNat index
    | none => false
  with
  | some device => some device
  | none => mgr.devices[index]?

def task (mgr : DeviceManager) : DiscoveryEvent → DeviceManager
  | .added id => ⟨mgr.devices ++ [⟨id,mgr.inners.length⟩],mgr.inners ++ [⟨id,none⟩]⟩
  | .timeout id _ => { mgr with devices := mgr.devices.filter fun d => d.url ≠ id }

def urls (mgr : DeviceManager) : List String := mgr.devices.map (·.url)

@[simp] theorem urls_added (mgr : DeviceManager) (id : String) :
    (mgr.task (.added id)).urls = mgr.urls ++ [id] := by
  simp [task,urls]

@[simp] theorem urls_timeout (mgr : DeviceManager) (id : String) (lastSeen : ℕ) :
    (mgr.task (.timeout id lastSeen)).urls = mgr.urls.filter (· ≠ id) := by
  simp [task,urls,List.filter_map,Function.comp_def]

theorem urls_timeouts (mgr : DeviceManager) (entries : List (Sigma fun _ : String => Registry.Device)) :
    ((entries.map fun e => DiscoveryEvent.timeout e.1 e.2.lastSeen).foldl task mgr).urls =
      mgr.urls.filter (· ∉ entries.map Sigma.fst) := by
  induction entries generalizing mgr with
  | nil => simp
  | cons e entries ih =>
    simp only [List.map_cons,List.foldl_cons,ih,urls_timeout,List.filter_filter,List.mem_cons,
      not_or]
    exact List.filter_congr fun url _ => by simp [Bool.and_comm]

def ofEvents (events : List DiscoveryEvent) : DeviceManager := events.foldl task new

section Registry

open Registry Transition

structure InStep (s : State) : Prop where
  once : (ofEvents s.events).urls.Nodup
  urls : ∀ url, url ∈ (ofEvents s.events).urls ↔ url ∈ s.devices

/-- What is in the registry was seen within five minutes or is static, and what was seen within
five minutes is in the registry. -/
structure Lasting (calls : List Registry.Call) (s : State) : Prop where
  fresh : ∀ url, ∀ dev ∈ s.devices.lookup url, dev.staticDevice ∨ s.now < dev.lastSeen+fiveMinutes
  seen : ∀ c ∈ calls, s.now < c.now+fiveMinutes → c.dev ∈ s.devices

/-- A call only announces the coming of a url that is not in the registry, and the going of one
that is. -/
def Announces (s : State) (c : Registry.Call) : Prop :=
  ∀ t, register s c = some t → ∃ sent, t.events = s.events ++ sent ∧ ∀ e ∈ sent, match e with
    | .added id => id ∉ s.devices
    | .timeout id _ => id ∈ s.devices

theorem url_mem_dropped {order : Devices} {now : ℕ} {url : String} :
    url ∈ (order.entries.filter fun e => !e.2.keep now).map Sigma.fst ↔
      ∃ dev ∈ order.lookup url, ¬dev.keep now := by
  rw [List.mem_map]
  constructor
  · rintro ⟨⟨_,dev⟩,hmem,rfl⟩
    exact ⟨dev,mem_dropped.mp hmem⟩
  · rintro ⟨dev,hdev⟩
    exact ⟨⟨url,dev⟩,mem_dropped.mpr hdev,rfl⟩

theorem inStep_register {s t : State} {c : Registry.Call} (h : register s c = some t) (hs : InStep s) :
    InStep t := by
  obtain ⟨-,-,hlookup,timeouts,hevents,order,rfl,hperm⟩ := register_spec h
  have hadd : (ofEvents (s.events ++ if c.dev ∈ s.devices then [] else [.added c.dev])).urls =
      (ofEvents s.events).urls ++ if c.dev ∈ s.devices then [] else [c.dev] := by
    split <;> simp [ofEvents]
  have hurls : (ofEvents t.events).urls =
      ((ofEvents s.events).urls ++ if c.dev ∈ s.devices then [] else [c.dev]).filter
        (· ∉ (order.entries.filter fun e => !e.2.keep c.now).map Sigma.fst) := by
    rw [hevents,ofEvents,List.foldl_append,cleanup,urls_timeouts,← hadd]
    rfl
  constructor
  · rw [hurls]
    refine List.Nodup.filter _ ?_
    split
    · simpa using hs.once
    · rename_i hnew
      exact List.nodup_append.mpr ⟨hs.once,List.nodup_singleton _,fun url hurl other hother => by
        rintro rfl
        exact hnew (List.mem_singleton.mp hother ▸ (hs.urls url).mp hurl)⟩
  · intro url
    have hmem : url ∈ (ofEvents s.events).urls ++ (if c.dev ∈ s.devices then [] else [c.dev]) ↔
        ∃ dev, dev ∈ (s.devices.insert c.dev (touched s.devices c)).lookup url := by
      rw [← mem_devices,AList.mem_insert,List.mem_append,hs.urls]
      split
      · rename_i hold
        simp only [List.not_mem_nil,or_false]
        exact ⟨.inr,fun h => h.elim (· ▸ hold) id⟩
      · rw [List.mem_singleton,or_comm]
    rw [hurls,List.mem_filter,hmem,decide_eq_true_iff,url_mem_dropped,mem_devices]
    constructor
    · rintro ⟨⟨dev,hdev⟩,hkept⟩
      refine ⟨dev,(hlookup url dev).mpr ⟨hdev,?_⟩⟩
      by_contra hdrop
      exact hkept ⟨dev,by rwa [AList.perm_lookup hperm],hdrop⟩
    · rintro ⟨dev,hdev⟩
      obtain ⟨hdev',hkeep⟩ := (hlookup url dev).mp hdev
      refine ⟨⟨dev,hdev'⟩,?_⟩
      rintro ⟨old,hold,hdrop⟩
      rw [AList.perm_lookup hperm] at hold
      exact hdrop (Option.mem_unique hold hdev' ▸ hkeep)

theorem announces_register (s : State) (c : Registry.Call) : Announces s c := by
  intro t h
  obtain ⟨-,-,-,timeouts,hevents,order,rfl,hperm⟩ := register_spec h
  refine ⟨_,hevents.trans (List.append_assoc ..),fun e he => ?_⟩
  rcases List.mem_append.mp he with hadded | htimeout
  · split at hadded
    · cases hadded
    · rename_i hnew
      rw [List.mem_singleton.mp hadded]
      exact hnew
  · obtain ⟨entry,hentry,rfl⟩ := List.mem_map.mp htimeout
    obtain ⟨dev,hdev,hdrop⟩ := timeout_mem_cleanup htimeout
    rw [AList.perm_lookup hperm] at hdev
    have hne : entry.1 ≠ c.dev := by
      intro hurl
      rw [hurl,AList.lookup_insert] at hdev
      cases hdev
      exact hdrop (touched_keep _ _)
    rw [AList.lookup_insert_ne hne] at hdev
    exact mem_devices.mpr ⟨dev,hdev⟩

/-- Every url stands in the registry with its last call, unless that is five minutes ago. -/
def Remembers (calls : List Registry.Call) (s : State) : Prop :=
  ∀ c ∈ calls, c.now ≤ s.now ∧
    (s.now < c.now+fiveMinutes → ∃ dev ∈ s.devices.lookup c.dev, c.now ≤ dev.lastSeen)

theorem remembers_register {calls : List Registry.Call} {s t : State} {c : Registry.Call}
    (h : register s c = some t) (hs : Remembers calls s) : Remembers (calls ++ [c]) t := by
  obtain ⟨hnow,htime,hlookup,-⟩ := register_spec h
  intro c' hc'
  rcases List.mem_append.mp hc' with hold | hlast
  · obtain ⟨hle,hentry⟩ := hs c' hold
    refine ⟨by omega,fun hrecent => ?_⟩
    obtain ⟨dev,hdev,hseen⟩ := hentry (by omega)
    by_cases hurl : c'.dev = c.dev
    · rw [hurl]
      exact ⟨_,(hlookup _ _).mpr ⟨AList.lookup_insert _,touched_keep _ _⟩,
        by rw [touched_lastSeen]; omega⟩
    · refine ⟨dev,(hlookup _ _).mpr ⟨by rwa [AList.lookup_insert_ne hurl],?_⟩,hseen⟩
      exact Device.keep_iff.mpr (.inr (by omega))
  · obtain rfl := List.mem_singleton.mp hlast
    exact ⟨by omega,fun _ => ⟨_,(hlookup _ _).mpr ⟨AList.lookup_insert _,touched_keep _ _⟩,
      by rw [touched_lastSeen]⟩⟩

theorem remembers_run {calls : List Registry.Call} {s : State} (h : run register init calls = some s) :
    Remembers calls s := by
  induction calls using List.reverseRecOn generalizing s with
  | nil =>
    intro c hc
    cases hc
  | append_singleton calls c ih =>
    obtain ⟨t,ht,hstep⟩ := run_concat_iff.mp h
    exact remembers_register hstep (ih ht)

theorem lasting_run {calls : List Registry.Call} {s : State} (h : run register init calls = some s) :
    Lasting calls s := by
  constructor
  · refine run_invariant (I := fun s => ∀ url, ∀ dev ∈ s.devices.lookup url,
      dev.staticDevice ∨ s.now < dev.lastSeen+fiveMinutes) (fun _ c t _ hstep url dev hdev => ?_)
      (fun _ _ hdev => by cases hdev) h
    obtain ⟨-,htime,hlookup,-⟩ := register_spec hstep
    rw [htime]
    exact Device.keep_iff.mp ((hlookup url dev).mp hdev).2
  · intro c hc hrecent
    obtain ⟨dev,hdev,-⟩ := (remembers_run h c hc).2 hrecent
    exact mem_devices.mpr ⟨dev,hdev⟩

/-- After every sequence of calls the list follows the registry, which forgets what it should and
nothing else; on the way every event was announced when it should be. -/
theorem list_follows_registry {calls : List Registry.Call} {s : State}
    (h : run register init calls = some s) :
    InStep s ∧ Lasting calls s ∧ Along register Announces init calls := by
  refine ⟨run_invariant (fun _ _ _ hs hstep => inStep_register hstep hs) ?_ h,lasting_run h,
    along_iff.mpr fun _ c _ t _ _ => announces_register t c⟩
  exact ⟨List.nodup_nil,fun url => by simp [ofEvents,new,DeviceManager.urls,init]⟩

/-- A second device is discovered as the first is not seen for five minutes. -/
def replaced : State :=
  ⟨⟨[⟨"usb:",⟨300000000005,false⟩⟩],by simp⟩,300000000005,
    [.added "mock:",.added "usb:",.timeout "mock:" 5]⟩

theorem register_replaced :
    register discovered (callOn discovered "usb:" false 300000000005) = some replaced := by
  rfl

theorem list_follows_replaced : let calls := [callOn init "mock:" false 5,
      callOn discovered "usb:" false 300000000005]
    InStep replaced ∧ Lasting calls replaced ∧ Along register Announces init calls :=
  list_follows_registry (run_cons_iff.mpr ⟨discovered,register_discovered,
    run_cons_iff.mpr ⟨replaced,register_replaced,rfl⟩⟩)

end Registry

end DeviceManager
end Minidsp
