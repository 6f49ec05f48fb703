import Minidsp.DeviceManager

/-! The home automation integration beside the daemon: it fetches the list of devices once, and
from then on names a device by its position in the list it was given. -/
namespace Minidsp

open Transition

namespace Http

structure Device where
  url : String
  version : Option DeviceInfo
  productName : Option String
  deriving DecidableEq, Repr

def getDevices (mgr : DeviceManager) : List Device :=
  mgr.devices.map fun d =>
    ⟨d.url,(mgr.handle d).map (·.deviceInfo),(mgr.handle d).map (·.productName)⟩

end Http

/-- No internal error has a reference to one of these as its root. -/
def MiniDSPError.isRetryable : MiniDSPError → Bool
  | .timeout | .deviceNotReady | .transportClosed => true
  | _ => false

structure MiniDSPDeviceInfo where
  index : ℕ
  url : String
  hwId : UInt8
  fwMajor : UInt8
  fwMinor : UInt8
  dspVersion : UInt8
  serial : UInt32
  productName : String
  deriving DecidableEq, Repr

namespace Coordinator

/-- Unidentified devices are skipped. -/
def fetchDevices (data : List Http.Device) : List MiniDSPDeviceInfo :=
  data.zipIdx.filterMap fun (d,i) => d.productName.map fun productName =>
    let v := d.version.getD ⟨0,0,0,0,0⟩
    ⟨i,d.url,v.hwId,v.fwMajor,v.fwMinor,v.dspVersion,v.serial,productName⟩

structure Request where
  info : MiniDSPDeviceInfo
  device : DeviceManager.Device
  attempts : ℕ
  deriving DecidableEq, Repr

structure Result where
  info : MiniDSPDeviceInfo
  reached : Option (String × DeviceInfo)
  deriving DecidableEq, Repr

structure World where
  manager : DeviceManager
  stored : Option (List MiniDSPDeviceInfo)
  requests : List Request
  results : List Result
  deriving DecidableEq, Repr

inductive Step
  | discovery (event : DiscoveryEvent)
  | probed (inner : ℕ) (handle : DeviceHandle)
  | closed (inner : ℕ)
  | fetch
  | post (info : MiniDSPDeviceInfo)
  | attempt (request : ℕ) (status : Except MiniDSPError Unit)

def init : World := ⟨.new,none,[],[]⟩

def World.lives (w : World) (inner : ℕ) : Bool :=
  (w.manager.devices.any fun d => d.inner == inner) ||
    w.requests.any fun r => r.device.inner == inner

def World.setHandle (w : World) (inner : ℕ) (handle : Option DeviceHandle) : World :=
  { w with manager := { w.manager with
      inners := w.manager.inners.modify inner fun i => { i with handle := handle } } }

def World.done (w : World) (request : ℕ) (result : Result) : World :=
  { w with requests := w.requests.eraseIdx request, results := w.results ++ [result] }

def post (w : World) (info : MiniDSPDeviceInfo) : World :=
  match w.manager.getDevice info.index with
  | none => { w with results := w.results ++ [⟨info,none⟩] }
  | some device => { w with requests := w.requests ++ [⟨info,device,0⟩] }

/-- One round of `get_minidsp`; `status` is what the device answers, if it is asked. -/
def attempt (w : World) (request : ℕ) (r : Request) (status : Except MiniDSPError Unit) : World :=
  match (w.manager.toMinidsp r.device).bind fun info => status.map fun _ => info with
  | .ok info => w.done request ⟨r.info,some (r.device.url,info)⟩
  | .error err =>
    if 3 ≤ r.attempts+1 ∨ !err.isRetryable then w.done request ⟨r.info,none⟩
    else { w with requests := w.requests.set request { r with attempts := r.attempts+1 } }

def step (w : World) : Step → Option World
  | .discovery event => some { w with manager := w.manager.task event }
  | .probed inner handle => if w.lives inner then some (w.setHandle inner (some handle)) else none
  | .closed inner => some (w.setHandle inner none)
  | .fetch =>
    if w.stored = none then some { w with stored := some (fetchDevices (Http.getDevices w.manager)) }
    else none
  | .post info => if info ∈ w.stored.getD [] then some (post w info) else none
  | .attempt request status => do
    let r ← w.requests[request]?
    return attempt w request r status

/-- Everything a step can do. -/
theorem step_spec {w w' : World} {a : Step} (h : step w a = some w') : match a with
    | .discovery event => w' = { w with manager := w.manager.task event }
    | .probed inner handle => w' = w.setHandle inner (some handle)
    | .closed inner => w' = w.setHandle inner none
    | .fetch => w.stored = none ∧
      w' = { w with stored := some (fetchDevices (Http.getDevices w.manager)) }
    | .post info => info ∈ w.stored.getD [] ∧ w' = post w info
    | .attempt request status =>
      ∃ r, w.requests[request]? = some r ∧ w' = attempt w request r status := by
  cases a with
  | discovery event => exact (Option.some.inj h).symm
  | probed inner handle =>
    simp only [step] at h
    split_ifs at h
    exact (Option.some.inj h).symm
  | closed inner => exact (Option.some.inj h).symm
  | fetch =>
    simp only [step] at h
    split_ifs at h with hnone
    exact ⟨hnone,(Option.some.inj h).symm⟩
  | post info =>
    simp only [step] at h
    split_ifs at h with hinfo
    exact ⟨hinfo,(Option.some.inj h).symm⟩
  | attempt request status =>
    obtain ⟨r,hr,hw'⟩ := Option.bind_eq_some_iff.mp h
    exact ⟨r,hr,(Option.some.inj hw').symm⟩

/-! Which device a post reaches. -/

/-- A device that has the stored url, or the stored position for a serial, is the stored one. -/
def Matches (info : MiniDSPDeviceInfo) (url : String) (v : DeviceInfo) : Prop :=
  url = info.url ∨ v.serial = UInt32.ofNat info.index → url = info.url ∧ v.serial = info.serial

/-- The step puts no other device at the stored position, nor connects to one in its place. -/
def Undisturbed (info : MiniDSPDeviceInfo) (w : World) : Step → Prop
  | .discovery (.added id) => w.manager.devices.length = info.index → id = info.url
  | .discovery (.timeout id _) =>
    ∀ d, (w.manager.devices.filter (·.url ≠ id))[info.index]? = some d → d.url = info.url
  | .probed inner handle =>
    ∀ i, w.manager.inners[inner]? = some i → Matches info i.url handle.deviceInfo
  | _ => True

def Known (mgr : DeviceManager) (d : DeviceManager.Device) : Prop :=
  ∃ i, mgr.inners[d.inner]? = some i ∧ i.url = d.url

theorem known_task {mgr : DeviceManager} {d : DeviceManager.Device} (h : Known mgr d)
    (event : DiscoveryEvent) : Known (mgr.task event) d ∧
      (mgr.task event).handle d = mgr.handle d := by
  obtain ⟨i,hi,hurl⟩ := h
  cases event with
  | added id =>
    have hget : (mgr.task (.added id)).inners[d.inner]? = mgr.inners[d.inner]? :=
      List.getElem?_append_left (List.getElem?_eq_some_iff.mp hi).1
    exact ⟨⟨i,hget.trans hi,hurl⟩,by rw [DeviceManager.handle,DeviceManager.handle,hget]⟩
  | timeout id lastSeen => exact ⟨⟨i,hi,hurl⟩,rfl⟩

theorem known_setHandle {w : World} {d : DeviceManager.Device} (h : Known w.manager d) (inner : ℕ)
    (handle : Option DeviceHandle) : Known (w.setHandle inner handle).manager d ∧
      (w.setHandle inner handle).manager.handle d =
        if inner = d.inner then handle else w.manager.handle d := by
  obtain ⟨i,hi,hurl⟩ := h
  have hget : (w.setHandle inner handle).manager.inners[d.inner]? =
      some (if inner = d.inner then { i with handle := handle } else i) := by
    rw [World.setHandle,List.getElem?_modify,hi]
    rfl
  refine ⟨⟨_,hget,by split <;> exact hurl⟩,?_⟩
  simp only [DeviceManager.handle,hget,hi,Option.bind_some]
  split <;> rfl

theorem getDevice_spec {mgr : DeviceManager} {index : ℕ} {d : DeviceManager.Device}
    (h : mgr.getDevice index = some d) : d ∈ mgr.devices ∧
      ((∃ v, mgr.handle d = some v ∧ v.deviceInfo.serial = UInt32.ofNat index) ∨
        mgr.devices[index]? = some d) := by
  unfold DeviceManager.getDevice at h
  split at h
  · rename_i device hfind
    obtain rfl := Option.some.inj h
    refine ⟨List.mem_of_find?_eq_some hfind,.inl ?_⟩
    have hserial := List.find?_some hfind
    cases hhandle : mgr.handle device with
    | none => simp [hhandle] at hserial
    | some v => exact ⟨v,rfl,by simpa [hhandle] using hserial⟩
  · exact ⟨List.mem_of_getElem? h,.inr h⟩

/-- Every post for the stored device was executed by the device with its url and serial, or
failed. -/
def Reaches (info : MiniDSPDeviceInfo) (results : List Result) : Prop :=
  ∀ r ∈ results, r.info = info → ∀ url v, r.reached = some (url,v) →
    url = info.url ∧ v.serial = info.serial

def Held (info : MiniDSPDeviceInfo) (w : World) (d : DeviceManager.Device) : Prop :=
  d ∈ w.manager.devices ∨ ∃ r ∈ w.requests, r.info = info ∧ r.device = d

structure Meant (info : MiniDSPDeviceInfo) (w : World) : Prop where
  position : ∀ d, w.manager.devices[info.index]? = some d → d.url = info.url
  known : ∀ d, Held info w d → Known w.manager d
  handles : ∀ d, Held info w d → ∀ h, w.manager.handle d = some h →
    Matches info d.url h.deviceInfo
  requests : ∀ r ∈ w.requests, r.info = info → r.device.url = info.url
  results : Reaches info w.results

namespace Meant

variable {info : MiniDSPDeviceInfo} {w w' : World}

theorem discovery (hm : Meant info w) {event : DiscoveryEvent}
    (h : Undisturbed info w (.discovery event)) :
    Meant info { w with manager := w.manager.task event } := by
  have hheld : ∀ d, Held info { w with manager := w.manager.task event } d → Held info w d ∨
      ∃ id, event = .added id ∧ d = ⟨id,w.manager.inners.length⟩ := by
    rintro d (hd | hd)
    · cases event with
      | added id =>
        exact (List.mem_append.mp hd).imp .inl fun h => ⟨id,rfl,List.mem_singleton.mp h⟩
      | timeout id lastSeen => exact .inl (.inl (List.mem_of_mem_filter hd))
    · exact .inl (.inr hd)
  refine ⟨fun d hd => ?_,fun d hd => ?_,fun d hd v hv => ?_,hm.requests,hm.results⟩
  · cases event with
    | added id =>
      by_cases hlt : info.index < w.manager.devices.length
      · exact hm.position d ((List.getElem?_append_left hlt).symm.trans hd)
      · have hlast := (List.getElem?_append_right (Nat.not_lt.mp hlt)).symm.trans hd
        obtain ⟨hzero,rfl⟩ := List.getElem?_eq_some_iff.mp hlast
        rw [List.length_singleton] at hzero
        simpa using h (by omega)
    | timeout id lastSeen => exact h d hd
  · rcases hheld d hd with hold | ⟨id,rfl,rfl⟩
    · exact (known_task (hm.known d hold) event).1
    · exact ⟨⟨id,none⟩,by simp [DeviceManager.task],rfl⟩
  · rcases hheld d hd with hold | ⟨id,rfl,rfl⟩
    · exact hm.handles d hold v ((known_task (hm.known d hold) event).2 ▸ hv)
    · simp [DeviceManager.handle,DeviceManager.task] at hv

theorem setHandle (hm : Meant info w) {inner : ℕ} {handle : Option DeviceHandle}
    (h : ∀ v, handle = some v → ∀ i, w.manager.inners[inner]? = some i →
      Matches info i.url v.deviceInfo) : Meant info (w.setHandle inner handle) := by
  refine ⟨hm.position,fun d hd => (known_setHandle (hm.known d hd) _ _).1,fun d hd v hv => ?_,
    hm.requests,hm.results⟩
  have hknown := hm.known d hd
  rw [(known_setHandle hknown inner handle).2] at hv
  split at hv
  · rename_i hinner
    obtain ⟨i,hi,hurl⟩ := hknown
    exact hurl ▸ h v hv i (hinner ▸ hi)
  · exact hm.handles d hd v hv

theorem answered (hm : Meant info w) (requests : List Request) (results : List Result)
    (hrequests : ∀ r ∈ requests, ∃ r' ∈ w.requests, r'.info = r.info ∧ r'.device = r.device)
    (hresults : Reaches info results) :
    Meant info { w with requests := requests, results := w.results ++ results } := by
  have hheld : ∀ d, Held info { w with requests := requests, results := w.results ++ results } d →
      Held info w d := by
    rintro d (hd | ⟨r,hr,hinfo,rfl⟩)
    · exact .inl hd
    · obtain ⟨r',hr',hinfo',hdevice⟩ := hrequests r hr
      exact .inr ⟨r',hr',hinfo'.trans hinfo,hdevice⟩
  refine ⟨hm.position,fun d hd => hm.known d (hheld d hd),fun d hd => hm.handles d (hheld d hd),
    fun r hr hinfo => ?_,fun r hr => ?_⟩
  · obtain ⟨r',hr',hinfo',hdevice⟩ := hrequests r hr
    exact hdevice ▸ hm.requests r' hr' (hinfo'.trans hinfo)
  · rcases List.mem_append.mp hr with hold | hnew
    · exact hm.results r hold
    · exact hresults r hnew

theorem post (hm : Meant info w) (info' : MiniDSPDeviceInfo) : Meant info (post w info') := by
  unfold Coordinator.post
  split
  · refine hm.answered w.requests _ (fun r hr => ⟨r,hr,rfl,rfl⟩) fun r hr _ url v h => ?_
    rw [List.mem_singleton.mp hr] at h
    cases h
  · rename_i device hfind
    obtain ⟨hmem,hwhich⟩ := getDevice_spec hfind
    have hheld : ∀ d, Held info { w with requests := w.requests ++ [⟨info',device,0⟩] } d →
        Held info w d := by
      rintro d (hd | ⟨r,hr,hinfo,rfl⟩)
      · exact .inl hd
      · rcases List.mem_append.mp hr with hold | hnew
        · exact .inr ⟨r,hold,hinfo,rfl⟩
        · rw [List.mem_singleton.mp hnew]
          exact .inl hmem
    refine ⟨hm.position,fun d hd => hm.known d (hheld d hd),
      fun d hd => hm.handles d (hheld d hd),fun r hr hinfo => ?_,hm.results⟩
    rcases List.mem_append.mp hr with hold | hnew
    · exact hm.requests r hold hinfo
    · rw [List.mem_singleton.mp hnew] at hinfo ⊢
      subst hinfo
      rcases hwhich with ⟨v,hv,hserial⟩ | hposition
      · exact (hm.handles device (.inl hmem) v hv (.inr hserial)).1
      · exact hm.position device hposition

theorem attempt (hm : Meant info w) {request : ℕ} {r : Request}
    (hr : w.requests[request]? = some r) (status : Except MiniDSPError Unit) :
    Meant info (attempt w request r status) := by
  have hmem : r ∈ w.requests := List.mem_of_getElem? hr
  unfold Coordinator.attempt
  split
  · rename_i v hok
    refine hm.answered _ _ (fun r' hr' => ⟨r',List.mem_of_mem_eraseIdx hr',rfl,rfl⟩) ?_
    intro result hresult hinfo url v' hreached
    rw [List.mem_singleton.mp hresult] at hinfo hreached
    obtain ⟨rfl,rfl⟩ := Prod.mk.inj (Option.some.inj hreached)
    have hurl := hm.requests r hmem hinfo
    obtain ⟨h,hh,rfl⟩ : ∃ h, w.manager.handle r.device = some h ∧ h.deviceInfo = v := by
      cases hhandle : w.manager.handle r.device with
      | none => simp [DeviceManager.toMinidsp,hhandle,Except.bind] at hok
      | some h =>
        refine ⟨h,rfl,?_⟩
        cases status <;> simp_all [DeviceManager.toMinidsp,Except.bind,Except.map]
    exact hm.handles r.device (.inr ⟨r,hmem,hinfo,rfl⟩) h hh (.inl hurl)
  · split
    · refine hm.answered _ _ (fun r' hr' => ⟨r',List.mem_of_mem_eraseIdx hr',rfl,rfl⟩) ?_
      intro result hresult _ url v hreached
      rw [List.mem_singleton.mp hresult] at hreached
      cases hreached
    · have := hm.answered (w.requests.set request { r with attempts := r.attempts+1 }) []
        (fun r' hr' => ?_) (fun _ h => by cases h)
      · simpa using this
      · rcases List.mem_or_eq_of_mem_set hr' with hold | rfl
        · exact ⟨r',hold,rfl,rfl⟩
        · exact ⟨r,hmem,rfl,rfl⟩

theorem step (hm : Meant info w) {a : Step} (hG : Undisturbed info w a)
    (h : step w a = some w') : Meant info w' := by
  cases a with
  | discovery event =>
    obtain rfl : w' = _ := step_spec h
    exact hm.discovery hG
  | probed inner handle =>
    obtain rfl : w' = _ := step_spec h
    exact hm.setHandle fun v hv i hi => Option.some.inj hv ▸ hG i hi
  | closed inner =>
    obtain rfl : w' = _ := step_spec h
    exact hm.setHandle (fun _ hv => by cases hv)
  | fetch =>
    obtain ⟨-,rfl⟩ := step_spec h
    exact ⟨hm.position,hm.known,hm.handles,hm.requests,hm.results⟩
  | post info' =>
    obtain ⟨-,rfl⟩ := step_spec h
    exact hm.post info'
  | attempt request status =>
    obtain ⟨r,hr,rfl⟩ := step_spec h
    exact hm.attempt hr status

end Meant

theorem mem_fetchDevices {mgr : DeviceManager} {info : MiniDSPDeviceInfo}
    (h : info ∈ fetchDevices (Http.getDevices mgr)) :
    ∃ d, mgr.devices[info.index]? = some d ∧ d.url = info.url := by
  obtain ⟨⟨entry,i⟩,hmem,hinfo⟩ := List.mem_filterMap.mp h
  obtain ⟨_,-,rfl⟩ := Option.map_eq_some_iff.mp hinfo
  have hget : (Http.getDevices mgr)[i]? = some entry := List.mem_zipIdx_iff_getElem?.mp hmem
  obtain ⟨d,hd,rfl⟩ := Option.map_eq_some_iff.mp ((List.getElem?_map ..).symm.trans hget)
  exact ⟨d,hd,rfl⟩

/-- Nothing is posted before there is a list to post from. -/
structure Fresh (w : World) : Prop where
  known : ∀ d ∈ w.manager.devices, Known w.manager d
  requests : w.stored = none → w.requests = []
  results : w.stored = none → w.results = []

theorem Fresh.step {w w' : World} {a : Step} (hw : Fresh w) (h : step w a = some w') :
    Fresh w' := by
  cases a with
  | discovery event =>
    obtain rfl : w' = _ := step_spec h
    refine ⟨fun d hd => ?_,hw.requests,hw.results⟩
    cases event with
    | added id =>
      rcases List.mem_append.mp hd with hold | hnew
      · exact (known_task (hw.known d hold) _).1
      · rw [List.mem_singleton.mp hnew]
        exact ⟨⟨id,none⟩,by simp [DeviceManager.task],rfl⟩
    | timeout id lastSeen => exact hw.known d (List.mem_of_mem_filter hd)
  | probed inner handle | closed inner =>
    obtain rfl : w' = _ := step_spec h
    exact ⟨fun d hd => (known_setHandle (hw.known d hd) _ _).1,hw.requests,hw.results⟩
  | fetch =>
    obtain ⟨-,rfl⟩ := step_spec h
    exact ⟨hw.known,(fun h => by cases h),(fun h => by cases h)⟩
  | post info =>
    obtain ⟨hinfo,rfl⟩ := step_spec h
    have hstored : w.stored ≠ none := fun hnone => by simp [hnone] at hinfo
    unfold post
    split <;> exact ⟨hw.known,fun h => absurd h hstored,fun h => absurd h hstored⟩
  | attempt request status =>
    obtain ⟨r,hr,rfl⟩ := step_spec h
    have hstored : w.stored ≠ none := fun hnone => by simp [hw.requests hnone] at hr
    unfold attempt
    split
    · exact ⟨hw.known,fun h => absurd h hstored,fun h => absurd h hstored⟩
    · split <;> exact ⟨hw.known,fun h => absurd h hstored,fun h => absurd h hstored⟩

/-- While no other device takes the position, the url or the number of a stored device, the posts
for it are executed by it or fail. -/
theorem post_reaches_stored {before after : List Step} {s t u : World} {info : MiniDSPDeviceInfo}
    (hbefore : run step init before = some s) (hfetch : step s .fetch = some t)
    (hinfo : info ∈ t.stored.getD [])
    (hmatch : ∀ d ∈ t.manager.devices, ∀ h, t.manager.handle d = some h →
      Matches info d.url h.deviceInfo)
    (hafter : run step t after = some u) (hsteps : Along step (Undisturbed info) t after) :
    Reaches info u.results := by
  have hfresh : Fresh s := run_invariant (fun _ _ _ hw h => hw.step h)
    ⟨fun _ h => absurd h List.not_mem_nil,fun _ => rfl,fun _ => rfl⟩ hbefore
  obtain ⟨hnone,rfl⟩ := step_spec hfetch
  have hrequests := hfresh.requests hnone
  have hresults := hfresh.results hnone
  have hheld : ∀ d, Held info { s with stored := some (fetchDevices (Http.getDevices s.manager)) } d →
      d ∈ s.manager.devices := by
    rintro d (hd | ⟨r,hr,-⟩)
    · exact hd
    · rw [hrequests] at hr
      cases hr
  refine (guarded_invariant (I := Meant info) (fun _ _ _ hm hG h => hm.step hG h) ?_ hsteps
    hafter).results
  refine ⟨fun d hd => ?_,fun d hd => hfresh.known d (hheld d hd),
    fun d hd => hmatch d (hheld d hd),fun r hr => ?_,fun r hr => ?_⟩
  · obtain ⟨d',hd',hurl⟩ := mem_fetchDevices hinfo
    exact Option.some.inj (hd.symm.trans hd') ▸ hurl
  · rw [hrequests] at hr
    cases hr
  · rw [hresults] at hr
    cases hr

def first : DeviceHandle := ⟨⟨10,1,0,100,900001⟩,"2x4HD"⟩
def second : DeviceHandle := ⟨⟨10,1,0,100,900002⟩,"2x4HD"⟩
def firstInfo : MiniDSPDeviceInfo := ⟨0,"mock:1",10,1,0,100,900001,"2x4HD"⟩

def twoDevices : List Step :=
  [.discovery (.added "mock:1"),.discovery (.added "mock:2"),.probed 0 first,.probed 1 second]

def connected : World :=
  ⟨⟨[⟨"mock:1",0⟩,⟨"mock:2",1⟩],[⟨"mock:1",some first⟩,⟨"mock:2",some second⟩]⟩,none,[],[]⟩

def fetched : World :=
  { connected with stored := some [firstInfo,⟨1,"mock:2",10,1,0,100,900002,"2x4HD"⟩] }

theorem run_twoDevices : run step init twoDevices = some connected := by rfl
theorem step_fetched : step connected .fetch = some fetched := by rfl

def postWithout (url : String) : List Step :=
  [.discovery (.timeout url 0),.post firstInfo,.attempt 0 (.ok ())]

def posted : World := { fetched with
  manager := { fetched.manager with devices := [⟨"mock:1",0⟩] }
  results := [⟨firstInfo,some ("mock:1",first.deviceInfo)⟩] }

theorem post_reaches_first : Reaches firstInfo posted.results := by
  have hafter : run step fetched (postWithout "mock:2") = some posted := by rfl
  refine post_reaches_stored run_twoDevices step_fetched (by decide) ?_ hafter ?_
  · intro d hd h hh
    rcases List.mem_pair.mp hd with rfl | rfl
    · cases hh
      simp [Matches,first,firstInfo]
    · cases hh
      simp [Matches,second,firstInfo]
  · refine ⟨fun d hd => ?_,fun _ _ => ⟨trivial,fun _ _ => ⟨trivial,fun _ _ => trivial⟩⟩⟩
    cases hd
    rfl

/-- A device that comes to stand at the position executes the posts for the stored one. -/
theorem displaced_reached {w : World} (info : MiniDSPDeviceInfo) {d : DeviceManager.Device}
    {v : DeviceHandle} (hinfo : info ∈ w.stored.getD [])
    (hposition : w.manager.devices[info.index]? = some d) (hv : w.manager.handle d = some v)
    (hserial : ∀ d ∈ w.manager.devices, ∀ h, w.manager.handle d = some h →
      h.deviceInfo.serial ≠ UInt32.ofNat info.index) :
    ∃ u, run step w [.post info,.attempt w.requests.length (.ok ())] = some u ∧
      ⟨info,some (d.url,v.deviceInfo)⟩ ∈ u.results := by
  have hfind : w.manager.getDevice info.index = some d := by
    unfold DeviceManager.getDevice
    rw [List.find?_eq_none.mpr]
    · exact hposition
    · intro d' hd'
      cases hh : w.manager.handle d' with
      | none => simp
      | some h => simpa using hserial d' hd' h hh
  let w' : World := { w with requests := w.requests ++ [⟨info,d,0⟩] }
  have hpost : step w (.post info) = some w' := by
    simp only [step,if_pos hinfo,post,hfind,w']
  have hattempt : step w' (.attempt w.requests.length (.ok ())) =
      some (w'.done w.requests.length ⟨info,some (d.url,v.deviceInfo)⟩) := by
    simp only [step,w',List.getElem?_concat_length,Option.bind_eq_bind,Option.bind_some,attempt,
      DeviceManager.toMinidsp,hv]
    rfl
  exact ⟨_,run_cons_iff.mpr ⟨w',hpost,run_cons_iff.mpr ⟨_,hattempt,rfl⟩⟩,by simp [World.done]⟩

/-- The first device goes, and the second takes its position. -/
theorem second_reached : run step init twoDevices = some connected ∧
    step connected .fetch = some fetched ∧ ∃ u, run step fetched (postWithout "mock:1") = some u ∧
      ∃ r ∈ u.results, r.info = firstInfo ∧ ∃ url v, r.reached = some (url,v) ∧
        url ≠ firstInfo.url ∧ v.serial ≠ firstInfo.serial := by
  obtain ⟨u,hu,hr⟩ := displaced_reached firstInfo
    (w := { fetched with manager := fetched.manager.task (.timeout "mock:1" 0) })
    (d := ⟨"mock:2",1⟩) (v := second) (by decide) rfl rfl (fun d hd h hh => by
      obtain rfl := List.mem_singleton.mp hd
      cases hh
      decide)
  exact ⟨run_twoDevices,step_fetched,u,run_cons_iff.mpr ⟨_,rfl,hu⟩,_,hr,rfl,_,_,rfl,by decide,
    by decide⟩

end Coordinator
end Minidsp
