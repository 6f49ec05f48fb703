import Minidsp.Codegen
import Minidsp.Decoder
import Minidsp.XmlConfig

/-! The names of the addresses of a DSP, from a configuration file through the generated table
of symbols to what the decoder prints. -/
namespace Minidsp

open Buffer

structure NamedElement where
  name : String
  element : AddressableElement
  deriving DecidableEq, Repr

def AddressableElement.addr? : AddressableElement → Option UInt64
  | .item addr _ | .fir addr _ => some addr
  | .filter addr _ => addr

def namedAddresses (items : List NamedElement) : List (String × ℕ) :=
  items.filterMap fun item => item.element.addr?.map fun addr => (item.name,addr.toNat)

def Setting.nameMap (items : List NamedElement) : SymbolMap :=
  items.foldl (fun map item =>
    match item.element.addr? with
    | some addr => map.insert item.name addr.toNat
    | none => map) LinearUse.BiMap.empty

/-- The table as it is compiled, which takes constants of different names that fit `u16`. -/
def Codegen.SymModule.compiled (sym : SymModule) : Option (List (String × UInt16)) :=
  if (sym.consts.map Prod.fst).Nodup ∧ ∀ c ∈ sym.consts, c.2 < 65536 then
    sym.symbols.mapM fun s => (sym.value? s.2).map fun addr => (s.1,UInt16.ofNat addr)
  else none

def Decoder.setNameMap (d : Decoder) (symbols : List (String × UInt16)) : Decoder :=
  let map := symbols.foldl (fun map s => map.insert s.1 s.2.toNat) LinearUse.BiMap.empty
  { d with nameMap := some map.entries }

open LinearUse

theorem nameMap_eq (items : List NamedElement) :
    Setting.nameMap items = BiMap.ofList (namedAddresses items) := by
  have hfold : ∀ map : SymbolMap, items.foldl (fun map item =>
      match item.element.addr? with
      | some addr => map.insert item.name addr.toNat
      | none => map) map =
      (namedAddresses items).foldl (fun map e => map.insert e.1 e.2) map := by
    induction items with
    | nil => exact fun _ => rfl
    | cons item items ih =>
      intro map
      rw [List.foldl_cons,ih]
      cases haddr : item.element.addr? <;> simp [namedAddresses,haddr]
  exact hfold _

namespace Decoder

theorem resolveAddr_setNameMap {d : Decoder} {symbols : List (String × UInt16)} {addr : UInt16}
    {name : String} (hleft : (symbols.map Prod.fst).Nodup)
    (hright : (symbols.map Prod.snd).Nodup) :
    (d.setNameMap symbols).resolveAddr addr = some name ↔ (name,addr) ∈ symbols := by
  have hmap : symbols.foldl (fun map s => map.insert s.1 s.2.toNat) BiMap.empty =
      BiMap.ofList (symbols.map fun s => (s.1,s.2.toNat)) := by
    rw [BiMap.ofList,List.foldl_map]
  have hresolve : (d.setNameMap symbols).resolveAddr addr =
      (BiMap.ofList (symbols.map fun s => (s.1,s.2.toNat))).getByRight addr.toNat := by
    rw [← hmap,BiMap.getByRight,Option.map_eq_bind]
    rfl
  rw [hresolve,BiMap.getByRight_eq_some,BiMap.mem_ofList_of_nodup]
  · constructor
    · intro h
      obtain ⟨⟨name',addr'⟩,hmem,heq⟩ := List.mem_map.mp h
      obtain ⟨rfl,haddr⟩ := Prod.mk.inj heq
      rwa [← UInt16.toNat_inj.mp haddr]
    · exact fun h => List.mem_map.mpr ⟨_,h,rfl⟩
  · rwa [List.map_map]
  · have hnat : (symbols.map fun s => (s.1,s.2.toNat)).map Prod.snd =
        (symbols.map Prod.snd).map UInt16.toNat := by
      rw [List.map_map,List.map_map]
      rfl
    exact hnat ▸ hright.map fun a b h => UInt16.toNat_inj.mp h

end Decoder

namespace Codegen

variable {isIdent : String → Bool} {toScreamingSnakeCase : String → String} {symbols : SymbolMap}

theorem mapM_some {α β : Type} {f : α → Option β} {g : α → β} {xs : List α}
    (h : ∀ x ∈ xs, f x = some (g x)) : xs.mapM f = some (xs.map g) := by
  induction xs with
  | nil => rfl
  | cons x xs ih =>
    rw [List.mapM_cons,h x (by simp),ih fun y hy => h y (by simp [hy])]
    rfl

theorem compiled_perm {sym : SymModule} {table : List (String × UInt16)}
    (hsym : generateSymbols isIdent toScreamingSnakeCase symbols = .ok sym)
    (htable : sym.compiled = some table) :
    (∀ a ∈ symbols.lefts, ∀ b ∈ symbols.lefts,
      toScreamingSnakeCase a = toScreamingSnakeCase b → a = b) ∧
    (∀ e ∈ symbols.entries, e.2 < 65536) ∧
    table.Perm (symbols.entries.map fun e => (toScreamingSnakeCase e.1,UInt16.ofNat e.2)) := by
  obtain ⟨hconsts,hsyms⟩ := generateSymbols_ok hsym
  obtain ⟨⟨hnodup,hfit⟩,htable⟩ := Option.ite_none_right_eq_some.mp htable
  have hsorted := List.mergeSort_perm symbols.entries fun a b => a.2 ≤ b.2
  have hperm : sym.consts.Perm
      (symbols.entries.map fun e => (⟨toScreamingSnakeCase e.1⟩,e.2)) := hconsts ▸ hsorted.map _
  have hidents : (symbols.entries.map fun e => (⟨toScreamingSnakeCase e.1⟩ : Ident)).Nodup := by
    have hmap := (hperm.map Prod.fst).nodup_iff.mp hnodup
    rwa [List.map_map] at hmap
  have hinj : ∀ a ∈ symbols.lefts, ∀ b ∈ symbols.lefts,
      toScreamingSnakeCase a = toScreamingSnakeCase b → a = b := by
    intro a ha b hb hab
    obtain ⟨v,hv⟩ := symbols.exists_of_mem_lefts ha
    obtain ⟨w,hw⟩ := symbols.exists_of_mem_lefts hb
    exact congrArg Prod.fst (List.inj_on_of_nodup_map hidents hv hw (congrArg Ident.mk hab))
  refine ⟨hinj,fun e he => ?_,?_⟩
  · exact hfit _ (hperm.mem_iff.mpr (List.mem_map.mpr ⟨e,he,rfl⟩))
  · rw [hsyms,List.mapM_map] at htable
    rw [mapM_some (g := fun e => (toScreamingSnakeCase e.1,UInt16.ofNat e.2))] at htable
    · exact Option.some.inj htable ▸ hsorted.map _
    · intro e he
      have hentry : (e.1,e.2) ∈ symbols.entries := hsorted.mem_iff.mp he
      show (sym.value? ⟨toScreamingSnakeCase e.1⟩).map _ = _
      rw [value?_eq hinj hperm hentry]
      rfl

/-- An address is printed with the name of the last element of the file that has it, unless a later
one has the name. -/
theorem names_shown {items : List NamedElement} {sym : SymModule}
    {table : List (String × UInt16)}
    (hsym : generateSymbols isIdent toScreamingSnakeCase (Setting.nameMap items) = .ok sym)
    (htable : sym.compiled = some table) (d : Decoder) (addr : UInt16) (shown : String) :
    (d.setNameMap table).resolveAddr addr = some shown ↔
      ∃ name before after, namedAddresses items = before ++ (name,addr.toNat) :: after ∧
        shown = toScreamingSnakeCase name ∧
        ∀ e ∈ after, name ≠ e.1 ∧ addr.toNat ≠ e.2 := by
  obtain ⟨hinj,hfit,hperm⟩ := compiled_perm hsym htable
  have hleft : (table.map Prod.fst).Nodup := by
    rw [(hperm.map Prod.fst).nodup_iff,List.map_map]
    have hnames := (Setting.nameMap items).left_nodup.map_on hinj
    rwa [BiMap.lefts,List.map_map] at hnames
  have hright : (table.map Prod.snd).Nodup := by
    rw [(hperm.map Prod.snd).nodup_iff,List.map_map]
    have haddrs := (Setting.nameMap items).right_nodup.map_on (f := UInt16.ofNat) ?_
    · rwa [List.map_map] at haddrs
    · intro a ha b hb hab
      obtain ⟨e,he,rfl⟩ := List.mem_map.mp ha
      obtain ⟨e',he',rfl⟩ := List.mem_map.mp hb
      rw [← UInt16.toNat_ofNat_of_lt' (hfit e he),hab,UInt16.toNat_ofNat_of_lt' (hfit e' he')]
  rw [Decoder.resolveAddr_setNameMap hleft hright,hperm.mem_iff]
  have hmem := @BiMap.mem_ofList _ _ _ _ (namedAddresses items)
  rw [← nameMap_eq] at hmem
  constructor
  · intro h
    obtain ⟨⟨name,a⟩,he,heq⟩ := List.mem_map.mp h
    obtain ⟨rfl,rfl⟩ := Prod.mk.inj heq
    obtain ⟨before,after,hitems,hafter⟩ := hmem.mp he
    rw [UInt16.toNat_ofNat_of_lt' (hfit _ he)]
    exact ⟨name,before,after,hitems,rfl,hafter⟩
  · rintro ⟨name,before,after,hitems,rfl,hafter⟩
    refine List.mem_map.mpr ⟨(name,addr.toNat),hmem.mpr ⟨before,after,hitems,hafter⟩,?_⟩
    rw [UInt16.ofNat_toNat]

/-- The name of the first element is used again for the third one. -/
theorem names_shown_again :
    let items : List NamedElement := [⟨"gain",.item 3 []⟩,⟨"mute",.fir 5 []⟩,⟨"gain",.item 7 []⟩,
      ⟨"peq",.filter none none⟩]
    let upper := fun name => if name = "gain" then "GAIN" else "MUTE"
    ∃ sym table, generateSymbols (fun _ => true) upper (Setting.nameMap items) = .ok sym ∧
      sym.compiled = some table ∧
      ((⟨false,none⟩ : Decoder).setNameMap table).resolveAddr 7 = some "GAIN" := by
  intro items upper
  have hsorted : (Setting.nameMap items).entries.mergeSort (fun a b => a.2 ≤ b.2) =
      (Setting.nameMap items).entries := List.mergeSort_of_pairwise (by decide)
  have hrun : generateSymbols (fun _ => true) upper (Setting.nameMap items) =
      .ok ⟨[(⟨"MUTE"⟩,5),(⟨"GAIN"⟩,7)],[("MUTE",⟨"MUTE"⟩),("GAIN",⟨"GAIN"⟩)]⟩ := by
    rw [generateSymbols,hsorted]
    rfl
  exact ⟨_,_,hrun,rfl,(names_shown hrun rfl ⟨false,none⟩ 7 "GAIN").mpr
    ⟨"gain",[("gain",3),("mute",5)],[],rfl,rfl,by simp⟩⟩

end Codegen
end Minidsp
