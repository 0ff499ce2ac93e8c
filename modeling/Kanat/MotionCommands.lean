import Mathlib.Data.List.Nodup

/-! # The motion commands and what each carries

The table as the parser has it, entry by entry, and that no opcode is in it twice. -/
namespace Kanat.MotionPackets

inductive ValueTypes where
  | none
  | uInt8
  | uInt16BE
  | uInt32BE
  | float32BE
  deriving DecidableEq

/-- What a command of the opcode sends, and what a report of it returns. -/
structure MotionRecord where
  opCodeDescription : String
  send : ValueTypes
  returned : ValueTypes
  deriving DecidableEq

def motionRecords : List (ℕ × MotionRecord) := [
  (0x0106, ⟨"MOT_GetMotorCurrent", .none, .float32BE⟩),
  (0x0107, ⟨"MOT_GetMotorVoltage", .none, .float32BE⟩),
  (0x0108, ⟨"MOT_GetMotorPosition", .none, .float32BE⟩),
  (0x0109, ⟨"MOT_GetLoadPosition", .none, .float32BE⟩),
  (0x010A, ⟨"MOT_GetMotorSpeed", .none, .float32BE⟩),
  (0x0101, ⟨"MOT_MerRegister", .none, .uInt16BE⟩),
  (0x0102, ⟨"MOT_DerRegister", .none, .uInt16BE⟩),
  (0x0103, ⟨"MOT_SrhRegister", .none, .uInt16BE⟩),
  (0x0104, ⟨"MOT_SrlRegister", .none, .uInt16BE⟩),
  (0x0105, ⟨"MOT_MsrRegister", .none, .uInt16BE⟩),
  (0x010C, ⟨"MOT_GetNegSWLS", .none, .float32BE⟩),
  (0x010D, ⟨"MOT_GetPosSWLS", .none, .float32BE⟩),
  (0x0110, ⟨"MOT_IsActiveSWLS", .none, .uInt8⟩),
  (0x014F, ⟨"MOT_GetShortPath", .none, .uInt8⟩),
  (0x012E, ⟨"MOT_GetMaxCurrent", .none, .float32BE⟩),
  (0x0130, ⟨"MOT_SetAcceleration", .float32BE, .none⟩),
  (0x0131, ⟨"MOT_SetSpeed", .float32BE, .none⟩),
  (0x0132, ⟨"MOT_SendPosition", .float32BE, .none⟩),
  (0x0133, ⟨"MOT_SetActualPosition", .float32BE, .none⟩),
  (0x0134, ⟨"MOT_Update", .none, .none⟩),
  (0x0135, ⟨"MOT_Homing", .none, .none⟩),
  (0x0136, ⟨"MOT_SetNegSWLS", .float32BE, .none⟩),
  (0x0137, ⟨"MOT_SetPosSWLS", .float32BE, .none⟩),
  (0x0146, ⟨"MOT_ActivateSWLS", .uInt8, .none⟩),
  (0x0138, ⟨"MOT_SetPositionRelative", .float32BE, .none⟩),
  (0x0139, ⟨"MOT_SetPositionAbsolute", .float32BE, .none⟩),
  (0x013A, ⟨"MOT_SetSpeedMode", .none, .none⟩),
  (0x013B, ⟨"MOT_SetPositionMode", .none, .none⟩),
  (0x013C, ⟨"MOT_AxisOn", .none, .none⟩),
  (0x013D, ⟨"MOT_AxisOff", .none, .none⟩),
  (0x013E, ⟨"MOT_AxisReset", .none, .none⟩),
  (0x013F, ⟨"MOT_SetTum", .uInt8, .none⟩),
  (0x0143, ⟨"MOT_ResetFaults", .none, .none⟩),
  (0x014E, ⟨"MOT_SetShortPath", .uInt8, .none⟩),
  (0x0165, ⟨"MOT_SaveMotorSetting", .none, .none⟩),
  (0x0166, ⟨"MOT_SetMaxCurrent", .float32BE, .none⟩),
  (0x0144, ⟨"MOT_SetMotionComplete", .none, .none⟩),
  (0x0400, ⟨"SCN_SetYawMin", .float32BE, .none⟩),
  (0x0401, ⟨"SCN_SetYawMax", .float32BE, .none⟩),
  (0x0402, ⟨"SCN_SetPitchMin", .float32BE, .none⟩),
  (0x0403, ⟨"SCN_SetNumSteps", .uInt32BE, .none⟩),
  (0x0404, ⟨"SCN_SetStepHeight", .float32BE, .none⟩),
  (0x0405, ⟨"SCN_SetScanSpeed", .float32BE, .none⟩),
  (0x0406, ⟨"SCN_SetShortPath", .uInt8, .none⟩),
  (0x0407, ⟨"SCN_IsScanOn", .none, .uInt8⟩),
  (0x0408, ⟨"SCN_StopScan", .none, .none⟩),
  (0x040C, ⟨"SCN_StartScanZigZag", .none, .none⟩),
  (0x040D, ⟨"SCN_StartScanSnake", .none, .none⟩),
  (0x040E, ⟨"SCN_StartScanSquare", .none, .none⟩),
  (0x0700, ⟨"COM_Reboot", .none, .none⟩),
  (0x0702, ⟨"COM_Connect", .none, .none⟩),
  (0x0703, ⟨"COM_Disconnect", .none, .none⟩),
  (0x0704, ⟨"COM_IsConnected", .none, .uInt8⟩),
  (0x0705, ⟨"COM_StartKeepAlive", .none, .none⟩),
  (0x0706, ⟨"COM_IsKeepAliveOn", .none, .uInt8⟩),
  (0x0708, ⟨"COM_setKeepAliveTimeout", .uInt32BE, .none⟩),
  (0x0709, ⟨"COM_getKeepAliveTimeout", .none, .uInt32BE⟩),
  (0x071C, ⟨"COM_setKeepAliveCount", .uInt32BE, .none⟩),
  (0x071D, ⟨"COM_getKeepAliveCount", .none, .uInt32BE⟩),
  (0x0719, ⟨"COM_SetComType", .uInt8, .none⟩),
  (0x0713, ⟨"COM_SysState", .none, .uInt8⟩),
  (0x070A, ⟨"IP_SetControllerIP", .uInt32BE, .none⟩),
  (0x070D, ⟨"IP_GetControllerIP", .none, .uInt32BE⟩),
  (0x070B, ⟨"IP_SetControllerPort", .uInt16BE, .none⟩),
  (0x070E, ⟨"IP_GetControllerPort", .none, .uInt16BE⟩),
  (0x071A, ⟨"IP_SetControllerSubnetMask", .uInt32BE, .none⟩),
  (0x0710, ⟨"IP_SaveIP", .none, .none⟩),
  (0x0C2D, ⟨"COM_GetPn", .none, .uInt32BE⟩),
  (0x0C2F, ⟨"COM_GetSn", .none, .uInt32BE⟩),
  (0x0C4A, ⟨"COM_GetFw", .none, .uInt32BE⟩),
  (0x0C4C, ⟨"COM_GetHw", .none, .uInt32BE⟩),
  (0x0300, ⟨"LRF_SetRange", .float32BE, .none⟩),
  (0x0301, ⟨"LRF_GetRange", .none, .float32BE⟩),
  (0x0800, ⟨"STB_StabilizationOn", .none, .none⟩),
  (0x0801, ⟨"STB_StabilizationOff", .none, .none⟩),
  (0x0822, ⟨"STB_GetStabError", .none, .float32BE⟩),
  (0x0839, ⟨"STB_SetStabMinAccel", .float32BE, .none⟩),
  (0x083A, ⟨"STB_GetStabMinAccel", .none, .float32BE⟩),
  (0x0D04, ⟨"STB_SetSpdKp", .float32BE, .none⟩),
  (0x0D08, ⟨"STB_GetSpdKp", .none, .float32BE⟩),
  (0x0D05, ⟨"STB_SetSpdKi", .float32BE, .none⟩),
  (0x0D09, ⟨"STB_GetSpdKi", .none, .float32BE⟩),
  (0x0D06, ⟨"STB_SetSpdKd", .float32BE, .none⟩),
  (0x0D0A, ⟨"STB_GetSpdKd", .none, .float32BE⟩),
  (0x0D16, ⟨"STB_SetPosKp", .float32BE, .none⟩),
  (0x0D17, ⟨"STB_GetPosKp", .none, .float32BE⟩),
  (0x0D18, ⟨"STB_SetPosKi", .float32BE, .none⟩),
  (0x0D19, ⟨"STB_GetPosKi", .none, .float32BE⟩),
  (0x0D1A, ⟨"STB_SetPosKd", .float32BE, .none⟩),
  (0x0D1B, ⟨"STB_GetPosKd", .none, .float32BE⟩),
  (0x082B, ⟨"STB_SetDistanceToTarget", .float32BE, .none⟩),
  (0x082A, ⟨"STB_GetDistanceToTarget", .none, .float32BE⟩),
  (0x0825, ⟨"STB_SetCentralAxes", .uInt8, .none⟩),
  (0x0826, ⟨"STB_GetCentralAxes", .none, .uInt8⟩),
  (0x0C76, ⟨"STB_SetRollCompensation", .uInt8, .none⟩),
  (0x0C77, ⟨"STB_GetRollCompensation", .none, .uInt8⟩),
  (0x084F, ⟨"STB_SetRebalanceOn", .none, .none⟩),
  (0x0850, ⟨"STB_GetRebalanceOn", .none, .uInt8⟩),
  (0x0851, ⟨"STB_GetRebalanceStatus", .none, .uInt8⟩),
  (0x0D07, ⟨"STB_SaveStabilizationCfg", .none, .none⟩),
  (0x0FA0, ⟨"DG_SetSyncMode", .uInt8, .none⟩),
  (0x0FA1, ⟨"DG_SetInnerMode", .uInt8, .none⟩),
  (0x0FA2, ⟨"DG_IsSyncMode", .none, .uInt8⟩),
  (0x0FA3, ⟨"DG_IsInnerMode", .none, .uInt8⟩),
  (0x0FA5, ⟨"DG_GetPosDiff", .none, .float32BE⟩),
  (0x0FA6, ⟨"DG_SetMaxDiff", .float32BE, .none⟩),
  (0x0FA7, ⟨"DG_GetMaxDiff", .none, .float32BE⟩),
  (0x0FA9, ⟨"DG_GoToCamera", .uInt8, .none⟩),
  (0x0FAA, ⟨"DG_SetSyncSpd", .float32BE, .none⟩),
  (0x0FAB, ⟨"DG_SetMainGimbal", .uInt8, .none⟩),
  (0x0FAC, ⟨"DG_GetMainGimbal", .none, .uInt8⟩),
  (0x0FB0, ⟨"DG_CTC", .none, .none⟩),
  (0x0FB1, ⟨"DG_GetCTCoffset", .none, .float32BE⟩),
  (0x0FB2, ⟨"DG_ResetCTCoffset", .none, .none⟩),
  (0x0FB5, ⟨"DG_GetSyncSpd", .none, .float32BE⟩),
  (0x0FB6, ⟨"DG_SetActiveWeapon", .uInt8, .none⟩),
  (0x0FB7, ⟨"DG_GetActiveWeapon", .none, .uInt8⟩),
  (0x0FB9, ⟨"DG_IsBoresightEn", .none, .uInt8⟩),
  (0x0FBA, ⟨"DG_SetActiveCamera", .uInt8, .none⟩),
  (0x0FBB, ⟨"DG_GetActiveCamera", .none, .uInt8⟩),
  (0x0FBC, ⟨"DG_GetBoresightOffset", .none, .float32BE⟩),
  (0x0FBD, ⟨"DG_SetBallisticOffset", .float32BE, .none⟩),
  (0x0FBE, ⟨"DG_GetBallisticOffset", .none, .float32BE⟩),
  (0x0FBF, ⟨"DG_GetSafetyStatus", .none, .uInt8⟩),
  (0x0FC0, ⟨"DG_GetLoadStatus", .none, .uInt8⟩),
  (0x0FC1, ⟨"DG_GetCapsnapIOStatus", .none, .uInt16BE⟩),
  (0x0FC2, ⟨"DG_GetNumBullets", .none, .uInt16BE⟩),
  (0x0FC3, ⟨"DG_ResetNumBullets", .none, .none⟩),
  (0x0FC4, ⟨"DG_IsCapSnapReady", .none, .uInt8⟩),
  (0x0E01, ⟨"ERR_CaptureSystemRegister", .none, .uInt32BE⟩),
  (0x0E02, ⟨"ERR_ClearErrors", .none, .none⟩),
  (0x0E03, ⟨"ERR_GetDriverErrorString", .none, .none⟩),
  (0x0E04, ⟨"ERR_GetSystemErrorString", .none, .none⟩),
  (0x0E05, ⟨"ERR_GetLoadImuErrorString", .none, .none⟩),
  (0x0E06, ⟨"ERR_GetBaseImuErrorString", .none, .none⟩),
  (0x0E07, ⟨"ERR_GetGpsComErrorString", .none, .none⟩),
  (0x0E08, ⟨"ERR_GetGpsPosString", .none, .none⟩),
  (0x0E09, ⟨"ERR_GetGpsHeadErrorString", .none, .none⟩),
  (0x0E0A, ⟨"ERR_GetProtocolErrorString", .none, .none⟩),
  (0x0E0D, ⟨"ERR_GetAbsEncComErrorString", .none, .none⟩),
  (0x0E0E, ⟨"ERR_GetAbsEncCRCErrorString", .none, .none⟩),
  (0x0E0F, ⟨"ERR_GetBodyImuErrorString", .none, .none⟩),
  (0x0E10, ⟨"ERR_GetHomingErrorString", .none, .none⟩),
  (0x0E12, ⟨"ERR_OperationRegister", .none, .uInt16BE⟩)]

/-- `TryGetValue` of the table. -/
def motionRecord (opCode : ℕ) : Option MotionRecord := (motionRecords.find? fun r => r.1 == opCode).map Prod.snd

/-- No opcode is in the table twice, which its building would refuse. -/
theorem motionRecords_nodup : (motionRecords.map Prod.fst).Nodup := by decide +kernel

theorem opCode_lt {opCode : ℕ} {record : MotionRecord} (h : motionRecord opCode = some record) : opCode < 65536 := by
  obtain ⟨r, hr, -⟩ := Option.map_eq_some_iff.mp h
  have hall : ∀ r ∈ motionRecords, r.1 < 65536 := by decide +kernel
  have heq : r.1 = opCode := by simpa using List.find?_some hr
  exact heq ▸ hall r (List.mem_of_find?_eq_some hr)

end Kanat.MotionPackets
