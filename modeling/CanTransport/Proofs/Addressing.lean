import CanTransport.Proofs.Segmentation
import CanTransport.Station.Basic

/-! # Addresses that two stations use

What the octets of an address say, and which station admits the frames of a conversation.
-/
namespace CanTransport

namespace Address

variable (type : TargetType) (target source : UInt8)

theorem toNat_ofParts :
    (ofParts type target source).raw.toNat =
      header.toNat * 0x1000000 + type.code.toNat * 0x10000 + target.toNat *
        0x100 + source.toNat := by
  have ht := target.toNat_lt
  have hs := source.toNat_lt
  have hc := type.code.toNat_lt
  have hh : header.toNat = 24 := rfl
  rw [ofParts, UInt32.toNat_ofNat', hh, Nat.mod_eq_of_lt (by omega)]

@[simp] theorem target_ofParts : (ofParts type target source).target = target := by
  have ht := target.toNat_lt
  have hs := source.toNat_lt
  have hc := type.code.toNat_lt
  apply UInt8.toNat_inj.mp
  rw [Address.target, octet, toNat_ofParts, UInt8.toNat_ofNat']
  omega

@[simp] theorem source_ofParts : (ofParts type target source).source = source := by
  have ht := target.toNat_lt
  have hs := source.toNat_lt
  have hc := type.code.toNat_lt
  apply UInt8.toNat_inj.mp
  rw [Address.source, octet, toNat_ofParts, UInt8.toNat_ofNat']
  omega

@[simp] theorem targetType?_ofParts : (ofParts type target source).targetType? = some type := by
  have ht := target.toNat_lt
  have hs := source.toNat_lt
  have hc := type.code.toNat_lt
  have ho : (ofParts type target source).octet 2 = type.code := by
    apply UInt8.toNat_inj.mp
    rw [octet, toNat_ofParts, UInt8.toNat_ofNat']
    omega
  rw [targetType?, ho, TargetType.ofCode?_code]

theorem isValid_ofParts : (ofParts type target source).isValid = true := by
  have ht := target.toNat_lt
  have hs := source.toNat_lt
  have hc := type.code.toNat_lt
  have ho : (ofParts type target source).octet 3 = header := by
    apply UInt8.toNat_inj.mp
    rw [octet, toNat_ofParts, UInt8.toNat_ofNat']
    have hh : header.toNat = 24 := rfl
    omega
  have hd : decode (ofParts type target source).raw = .ok (ofParts type target source) := by
    unfold decode
    dsimp only
    rw [if_neg (by simpa using ho),
      show (Address.mk (ofParts type target source).raw).targetType? =
          some type from targetType?_ofParts type target source]
  rw [isValid, hd]
  rfl

theorem reversed_physical : (physical target source).reversed = physical source target := by
  change physical (ofParts .physical target source).source
    (ofParts .physical target source).target = _
  rw [source_ofParts, target_ofParts]

theorem isFunctional_physical : (physical target source).isFunctional = false := by
  simp [isFunctional, physical]

end Address

namespace Pdu
variable {id : Address} {message chunk : List UInt8} {sequence : UInt8} {carried : Nat} {f : Frame}

theorem relevant_of_payload {b : UInt8} {bytes : List UInt8}
    (h : Frame.ofPayload? id (b :: bytes) = some f) :
    f.isRelevant = true := by
  have hl : (b :: bytes).length ≤ 8 := by
    unfold Frame.ofPayload? at h
    split at h
    · assumption
    · cases h
  obtain ⟨-, -, hd, he, hr⟩ := Frame.ofPayload?_eq_some h
  simpa [Frame.isRelevant, he, hr, UInt8.le_iff_toNat_le, hd] using hl

theorem relevant_singleFrame (h : singleFrame? id message = some f) : f.isRelevant = true := by
  unfold singleFrame? at h
  split at h
  · exact relevant_of_payload h
  · cases h

theorem relevant_consecutiveFrame (h : consecutiveFrame? id sequence chunk = some f) :
    f.isRelevant = true := by
  unfold consecutiveFrame? at h
  split at h
  · exact relevant_of_payload h
  · cases h

theorem relevant_firstFrame (h : firstFrame? id message = some (f, carried)) :
    f.isRelevant = true := by
  unfold firstFrame? at h
  dsimp only at h
  split at h
  · cases h
  · split at h
    · obtain ⟨g, hg, he⟩ := Option.map_eq_some_iff.mp h
      cases he
      exact relevant_of_payload hg
    · split at h
      · obtain ⟨g, hg, he⟩ := Option.map_eq_some_iff.mp h
        cases he
        exact relevant_of_payload hg
      · cases h

end Pdu

theorem Settings.admits_physical {settings : Settings} {f : Frame} {source : UInt8}
    (hid : f.id = .physical settings.source source) (hr : f.isRelevant = true) :
    settings.admits f = true := by
  have ht : (Address.physical settings.source source).targetType? = some .physical :=
    Address.targetType?_ofParts _ _ _
  have hv : (Address.physical settings.source source).isValid = true :=
    Address.isValid_ofParts _ _ _
  have hg : (Address.physical settings.source source).target = settings.source :=
    Address.target_ofParts _ _ _
  simp [admits, hid, hr, ht, hv, hg]

end CanTransport
