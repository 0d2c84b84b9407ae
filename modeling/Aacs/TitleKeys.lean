import Aacs.AesInverse
import Aacs.AlignedUnit
import Aacs.UnitKeyLayout
import Aacs.Volume

/-!
# Title keys and content

A volume unique key unwraps the keys of a unit key file in their order, under
numbers from one, and each key opens the units it has closed.
-/
namespace AacsVolume

variable {aes : Aes128}

theorem openDisc_of_files {discRoot : List String → Option (List UInt8)}
    {mkbBytes unitKeyBytes : List UInt8} {mkb : Mkb} {unitKeyFile : UnitKeyFile}
    (hmkb : readAacsFile discRoot "MKB_RO.inf" = .ok mkbBytes)
    (hunit : readAacsFile discRoot "Unit_Key_RO.inf" = .ok unitKeyBytes)
    (hparse : Mkb.parse mkbBytes = .ok mkb)
    (hkeys : UnitKeyFile.parse unitKeyBytes = .ok unitKeyFile) :
    openDisc discRoot = .ok ⟨mkb, unitKeyFile, cpsUnitsOf unitKeyFile⟩ := by
  rw [openDisc, hmkb, Outcome.bind_ok, hunit, Outcome.bind_ok, hparse, Outcome.bind_ok, hkeys]
  rfl

/-- The units that a list of title keys is unwrapped to. -/
def unwrappedUnits (aes : Aes128) (vuk : Vuk) (keys : List (Bytes 16)) : List CpsUnit :=
  keys.mapIdx fun i key => ⟨UInt16.ofNat (i + 1), aes.encrypt vuk.bytes key, some ⟨key⟩⟩

theorem unwrapTitleKeys_cpsUnitsOf
    (haes : ∀ key data, aes.decrypt key (aes.encrypt key data) = data) (vuk : Vuk)
    {keys : List (Bytes 16)} {unitKeyFile : UnitKeyFile}
    (hkeys : unitKeyFile.cpsUnits.map CpsUnitRecord.encryptedCpsUnitKey =
      keys.map (aes.encrypt vuk.bytes))
    (mkb : Mkb) :
    unwrapTitleKeys aes ⟨mkb, unitKeyFile, cpsUnitsOf unitKeyFile⟩ vuk =
      .ok ⟨mkb, unitKeyFile, unwrappedUnits aes vuk keys⟩ := by
  have hunits : (cpsUnitsOf unitKeyFile).map (fun unit =>
      { unit with titleKey := some ⟨aes.decrypt vuk.bytes unit.encryptedTitleKey⟩ }) =
        unwrappedUnits aes vuk keys := by
    apply List.ext_getElem?
    intro i
    have hkey := congrArg (fun encs => encs[i]?) hkeys
    simp only [List.getElem?_map] at hkey
    simp only [cpsUnitsOf, unwrappedUnits, List.getElem?_map, List.getElem?_mapIdx]
    cases hrec : unitKeyFile.cpsUnits[i]? with
    | none => cases hk : keys[i]? <;> simp [hrec, hk] at hkey ⊢
    | some r =>
      cases hk : keys[i]? with
      | none => simp [hrec, hk] at hkey
      | some key =>
        have henc : r.encryptedCpsUnitKey = aes.encrypt vuk.bytes key := by
          simpa [hrec, hk] using hkey
        simp [henc, haes]
  rw [unwrapTitleKeys, hunits]
  rfl

theorem unwrappedUnits_getElem? (vuk : Vuk) {keys : List (Bytes 16)} {i : Nat} {key : Bytes 16}
    (h : keys[i]? = some key) :
    (unwrappedUnits aes vuk keys)[i]? = some ⟨UInt16.ofNat (i + 1), aes.encrypt vuk.bytes key,
      some ⟨key⟩⟩ := by
  rw [unwrappedUnits, List.getElem?_mapIdx, h, Option.map_some]

theorem decryptUnit_of_titleKey (vol : AacsVolume) {unit : CpsUnit} {key : Bytes 16}
    (h : unit.titleKey = some ⟨key⟩) (unitBytes : List UInt8) :
    vol.decryptUnit aes unit unitBytes = Content.decryptAlignedUnit aes key unitBytes := by
  rw [decryptUnit, h, Outcome.okOr_some, Outcome.bind_ok]

/-- Every title key comes back in its place and under its number, and it opens what it has
closed. -/
theorem unwrapTitleKeys_roundTrip
    (hdecrypt : ∀ key data, aes.decrypt key (aes.encrypt key data) = data)
    (hencrypt : ∀ key data, aes.encrypt key (aes.decrypt key data) = data) (vuk : Vuk)
    {keys : List (Bytes 16)} (f : UnitKeyLayout.File)
    (hkeys : f.slots.map CpsUnitRecord.encryptedCpsUnitKey = keys.map (aes.encrypt vuk.bytes))
    (mkb : Mkb) :
    ∃ unitKeyFile vol, UnitKeyFile.parse f.bytes = .ok unitKeyFile ∧
      unwrapTitleKeys aes ⟨mkb, unitKeyFile, cpsUnitsOf unitKeyFile⟩ vuk = .ok vol ∧
      vol.cpsUnits.length = keys.length ∧
      ∀ i key, keys[i]? = some key → ∃ unit, vol.cpsUnits[i]? = some unit ∧ unit.id.toNat = i + 1 ∧
        unit.titleKey = some ⟨key⟩ ∧ ∀ u : Bytes Content.alignedUnitSize,
          (Content.encryptAlignedUnit aes key u.toList >>= fun c =>
            vol.decryptUnit aes unit c.toList) = .ok u ∧
          (vol.decryptUnit aes unit u.toList >>= fun p => Content.encryptAlignedUnit aes key
            p.toList) = .ok u := by
  have hlen : f.slots.length = keys.length := by simpa using congrArg List.length hkeys
  have hunwrap := @unwrapTitleKeys_cpsUnitsOf aes hdecrypt vuk keys f.parsed hkeys mkb
  refine ⟨f.parsed, _, UnitKeyLayout.parse_bytes f, hunwrap, by simp [unwrappedUnits], ?_⟩
  intro i key hkey
  refine ⟨_, unwrappedUnits_getElem? vuk hkey, ?_, rfl, ?_⟩
  · have hi : i < keys.length := (List.getElem?_eq_some_iff.mp hkey).1
    exact UInt16.toNat_ofNat_of_lt' (Nat.lt_of_le_of_lt (by omega) f.numOfCpsUnit_lt)
  · intro u
    obtain ⟨c, hc, hu⟩ := Content.decrypt_encryptAlignedUnit hdecrypt key u
    obtain ⟨p, hp, hu'⟩ := Content.encrypt_decryptAlignedUnit hencrypt key u
    constructor
    · rw [hc, Outcome.bind_ok, decryptUnit_of_titleKey _ rfl, hu]
    · rw [decryptUnit_of_titleKey _ rfl, hp, Outcome.bind_ok, hu']

/-- Two units, a directory with three titles, and padding on both sides of the header. -/
def twoUnitVuk : Vuk := ⟨Bytes.ofNat 16 0x000102030405060708090a0b0c0d0e0f⟩

def twoUnitKeys : List (Bytes 16) :=
  [Bytes.zero 16, Bytes.ofNat 16 0x0f0e0d0c0b0a09080706050403020100]

def twoUnitFile : UnitKeyLayout.File where
  reserved := Bytes.zero 12
  applicationType := 1
  flags := 0x80
  headerReserved := 0
  directories := [⟨1, 0, [⟨0, 1⟩, ⟨0, 2⟩, ⟨0, 2⟩], by decide⟩]
  numOfBdDirectory_lt := by decide
  padding := List.replicate 10 0
  blockReserved := Bytes.zero 14
  slots :=
    twoUnitKeys.map fun key =>
      ⟨Bytes.zero 16, Bytes.zero 16, Aes128.encryptBlock twoUnitVuk.bytes key⟩
  numOfCpsUnit_lt := by decide
  trailing := [0, 0, 0]
  blockStart_aligned := by decide
  blockStart_lt := by decide

theorem unwrapTitleKeys_roundTrip_twoUnits :
    ∃ unitKeyFile vol, UnitKeyFile.parse twoUnitFile.bytes = .ok unitKeyFile ∧
      unwrapTitleKeys Aes128.fips197 ⟨{}, unitKeyFile, cpsUnitsOf unitKeyFile⟩
        twoUnitVuk = .ok vol ∧
      vol.cpsUnits.length = 2 ∧ ∃ unit, vol.cpsUnits[1]? = some unit ∧ unit.id.toNat = 2 := by
  have hkeys : twoUnitFile.slots.map CpsUnitRecord.encryptedCpsUnitKey =
      twoUnitKeys.map (Aes128.fips197.encrypt twoUnitVuk.bytes) := rfl
  obtain ⟨unitKeyFile, vol, hparse, hunwrap, hlen, hunits⟩ := unwrapTitleKeys_roundTrip
    Aes128.decryptBlock_encryptBlock Aes128.encryptBlock_decryptBlock twoUnitVuk
      twoUnitFile hkeys {}
  obtain ⟨unit, hunit, hid, -⟩ := hunits 1 _ rfl
  exact ⟨unitKeyFile, vol, hparse, hunwrap, hlen, unit, hunit, hid⟩

end AacsVolume
