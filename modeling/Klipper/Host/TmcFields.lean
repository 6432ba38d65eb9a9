import Mathlib
import Klipper.Host.Tmc

/-
  The register field tables of the TMC drivers, and the codec law over all of them.

  Each driver module defines `Fields`, a dict from register names to dicts from field names to
  masks, and `SignedFields`; tmc2209.py copies the tables of tmc2208.py and sets five registers,
  and keeps tmc2208's signed fields.  The tables are transcribed entry by entry, the masks in the
  source's own `value << shift` form, and each is built as the source builds it, by setting one
  register after another.

  Every mask of every table is one run of bits inside 32 bits, the masks of a register are
  pairwise disjoint, and no signed field has a single bit.  That is checked entry by entry by
  evaluation (`driverFieldHelpers_entryOk`), and the general law of a run
  (`FieldHelper.setField_spec`) then gives the codec law for every field of every driver
  (`tmc_field_codec`).
-/

namespace Klipper.Tmc

open BitField

/-! ## The tables -/

/-- `Fields` of tmc2130.py -/
def tmc2130Fields : Dict (Dict Int) :=
  let fields : Dict (Dict Int) := []
  let fields := fields.set "GCONF"
    [("i_scale_analog", 1 <<< 0), ("internal_rsense", 1 <<< 1), ("en_pwm_mode", 1 <<< 2),
      ("enc_commutation", 1 <<< 3), ("shaft", 1 <<< 4), ("diag0_error", 1 <<< 5),
      ("diag0_otpw", 1 <<< 6), ("diag0_stall", 1 <<< 7), ("diag1_stall", 1 <<< 8),
      ("diag1_index", 1 <<< 9), ("diag1_onstate", 1 <<< 10), ("diag1_steps_skipped", 1 <<< 11),
      ("diag0_int_pushpull", 1 <<< 12), ("diag1_pushpull", 1 <<< 13),
      ("small_hysteresis", 1 <<< 14), ("stop_enable", 1 <<< 15), ("direct_mode", 1 <<< 16),
      ("test_mode", 1 <<< 17)]
  let fields := fields.set "GSTAT"
    [("reset", 1 <<< 0), ("drv_err", 1 <<< 1), ("uv_cp", 1 <<< 2)]
  let fields := fields.set "IOIN"
    [("step", 1 <<< 0), ("dir", 1 <<< 1), ("dcen_cfg4", 1 <<< 2), ("dcin_cfg5", 1 <<< 3),
      ("drv_enn_cfg6", 1 <<< 4), ("dco", 1 <<< 5), ("version", 0xff <<< 24)]
  let fields := fields.set "IHOLD_IRUN"
    [("ihold", 0x1f <<< 0), ("irun", 0x1f <<< 8), ("iholddelay", 0x0f <<< 16)]
  let fields := fields.set "TPOWERDOWN"
    [("tpowerdown", 0xff)]
  let fields := fields.set "TSTEP"
    [("tstep", 0xfffff)]
  let fields := fields.set "TPWMTHRS"
    [("tpwmthrs", 0xfffff)]
  let fields := fields.set "TCOOLTHRS"
    [("tcoolthrs", 0xfffff)]
  let fields := fields.set "THIGH"
    [("thigh", 0xfffff)]
  let fields := fields.set "MSLUT0"
    [("mslut0", 0xffffffff)]
  let fields := fields.set "MSLUT1"
    [("mslut1", 0xffffffff)]
  let fields := fields.set "MSLUT2"
    [("mslut2", 0xffffffff)]
  let fields := fields.set "MSLUT3"
    [("mslut3", 0xffffffff)]
  let fields := fields.set "MSLUT4"
    [("mslut4", 0xffffffff)]
  let fields := fields.set "MSLUT5"
    [("mslut5", 0xffffffff)]
  let fields := fields.set "MSLUT6"
    [("mslut6", 0xffffffff)]
  let fields := fields.set "MSLUT7"
    [("mslut7", 0xffffffff)]
  let fields := fields.set "MSLUTSEL"
    [("x3", 0xFF <<< 24), ("x2", 0xFF <<< 16), ("x1", 0xFF <<< 8), ("w3", 0x03 <<< 6),
      ("w2", 0x03 <<< 4), ("w1", 0x03 <<< 2), ("w0", 0x03 <<< 0)]
  let fields := fields.set "MSLUTSTART"
    [("start_sin", 0xFF <<< 0), ("start_sin90", 0xFF <<< 16)]
  let fields := fields.set "MSCNT"
    [("mscnt", 0x3ff)]
  let fields := fields.set "MSCURACT"
    [("cur_a", 0x1ff), ("cur_b", 0x1ff <<< 16)]
  let fields := fields.set "CHOPCONF"
    [("toff", 0x0f), ("hstrt", 0x07 <<< 4), ("hend", 0x0f <<< 7), ("fd3", 1 <<< 11),
      ("disfdcc", 1 <<< 12), ("rndtf", 1 <<< 13), ("chm", 1 <<< 14), ("tbl", 0x03 <<< 15),
      ("vsense", 1 <<< 17), ("vhighfs", 1 <<< 18), ("vhighchm", 1 <<< 19), ("sync", 0x0f <<< 20),
      ("mres", 0x0f <<< 24), ("intpol", 1 <<< 28), ("dedge", 1 <<< 29), ("diss2g", 1 <<< 30)]
  let fields := fields.set "COOLCONF"
    [("semin", 0x0f), ("seup", 0x03 <<< 5), ("semax", 0x0f <<< 8), ("sedn", 0x03 <<< 13),
      ("seimin", 1 <<< 15), ("sgt", 0x7f <<< 16), ("sfilt", 1 <<< 24)]
  let fields := fields.set "DRV_STATUS"
    [("sg_result", 0x3ff), ("fsactive", 1 <<< 15), ("cs_actual", 0x1f <<< 16),
      ("stallguard", 1 <<< 24), ("ot", 1 <<< 25), ("otpw", 1 <<< 26), ("s2ga", 1 <<< 27),
      ("s2gb", 1 <<< 28), ("ola", 1 <<< 29), ("olb", 1 <<< 30), ("stst", 1 <<< 31)]
  let fields := fields.set "PWMCONF"
    [("pwm_ampl", 0xff), ("pwm_grad", 0xff <<< 8), ("pwm_freq", 0x03 <<< 16),
      ("pwm_autoscale", 1 <<< 18), ("pwm_symmetric", 1 <<< 19), ("freewheel", 0x03 <<< 20)]
  let fields := fields.set "PWM_SCALE"
    [("pwm_scale", 0xff)]
  let fields := fields.set "LOST_STEPS"
    [("lost_steps", 0xfffff)]
  fields

/-- `SignedFields` of tmc2130.py -/
def tmc2130SignedFields : List String := ["cur_a", "cur_b", "sgt"]

/-- `Fields` of tmc2208.py -/
def tmc2208Fields : Dict (Dict Int) :=
  let fields : Dict (Dict Int) := []
  let fields := fields.set "GCONF"
    [("i_scale_analog", 0x01), ("internal_rsense", 0x01 <<< 1), ("en_spreadcycle", 0x01 <<< 2),
      ("shaft", 0x01 <<< 3), ("index_otpw", 0x01 <<< 4), ("index_step", 0x01 <<< 5),
      ("pdn_disable", 0x01 <<< 6), ("mstep_reg_select", 0x01 <<< 7), ("multistep_filt", 0x01 <<< 8),
      ("test_mode", 0x01 <<< 9)]
  let fields := fields.set "GSTAT"
    [("reset", 0x01), ("drv_err", 0x01 <<< 1), ("uv_cp", 0x01 <<< 2)]
  let fields := fields.set "IFCNT"
    [("ifcnt", 0xff)]
  let fields := fields.set "SLAVECONF"
    [("senddelay", 0x0f <<< 8)]
  let fields := fields.set "OTP_PROG"
    [("otpbit", 0x07), ("otpbyte", 0x03 <<< 4), ("otpmagic", 0xff <<< 8)]
  let fields := fields.set "OTP_READ"
    [("otp_fclktrim", 0x1f), ("otp_ottrim", 0x01 <<< 5), ("otp_internalrsense", 0x01 <<< 6),
      ("otp_tbl", 0x01 <<< 7), ("otp_pwm_grad", 0x0f <<< 8), ("otp_pwm_autograd", 0x01 <<< 12),
      ("otp_tpwmthrs", 0x07 <<< 13), ("otp_pwm_ofs", 0x01 <<< 16), ("otp_pwm_reg", 0x01 <<< 17),
      ("otp_pwm_freq", 0x01 <<< 18), ("otp_iholddelay", 0x03 <<< 19), ("otp_ihold", 0x03 <<< 21),
      ("otp_en_spreadcycle", 0x01 <<< 23)]
  let fields := fields.set "IOIN@TMC222x"
    [("pdn_uart", 0x01 <<< 1), ("spread", 0x01 <<< 2), ("dir", 0x01 <<< 3), ("enn", 0x01 <<< 4),
      ("step", 0x01 <<< 5), ("ms1", 0x01 <<< 6), ("ms2", 0x01 <<< 7), ("sel_a", 0x01 <<< 8),
      ("version", 0xff <<< 24)]
  let fields := fields.set "IOIN@TMC220x"
    [("enn", 0x01), ("ms1", 0x01 <<< 2), ("ms2", 0x01 <<< 3), ("diag", 0x01 <<< 4),
      ("pdn_uart", 0x01 <<< 6), ("step", 0x01 <<< 7), ("sel_a", 0x01 <<< 8), ("dir", 0x01 <<< 9),
      ("version", 0xff <<< 24)]
  let fields := fields.set "FACTORY_CONF"
    [("fclktrim", 0x1f), ("ottrim", 0x03 <<< 8)]
  let fields := fields.set "IHOLD_IRUN"
    [("ihold", 0x1f), ("irun", 0x1f <<< 8), ("iholddelay", 0x0f <<< 16)]
  let fields := fields.set "TPOWERDOWN"
    [("tpowerdown", 0xff)]
  let fields := fields.set "TSTEP"
    [("tstep", 0xfffff)]
  let fields := fields.set "TPWMTHRS"
    [("tpwmthrs", 0xfffff)]
  let fields := fields.set "VACTUAL"
    [("vactual", 0xffffff)]
  let fields := fields.set "MSCNT"
    [("mscnt", 0x3ff)]
  let fields := fields.set "MSCURACT"
    [("cur_a", 0x1ff), ("cur_b", 0x1ff <<< 16)]
  let fields := fields.set "CHOPCONF"
    [("toff", 0x0f), ("hstrt", 0x07 <<< 4), ("hend", 0x0f <<< 7), ("tbl", 0x03 <<< 15),
      ("vsense", 0x01 <<< 17), ("mres", 0x0f <<< 24), ("intpol", 0x01 <<< 28),
      ("dedge", 0x01 <<< 29), ("diss2g", 0x01 <<< 30), ("diss2vs", 0x01 <<< 31)]
  let fields := fields.set "DRV_STATUS"
    [("otpw", 0x01), ("ot", 0x01 <<< 1), ("s2ga", 0x01 <<< 2), ("s2gb", 0x01 <<< 3),
      ("s2vsa", 0x01 <<< 4), ("s2vsb", 0x01 <<< 5), ("ola", 0x01 <<< 6), ("olb", 0x01 <<< 7),
      ("t120", 0x01 <<< 8), ("t143", 0x01 <<< 9), ("t150", 0x01 <<< 10), ("t157", 0x01 <<< 11),
      ("cs_actual", 0x1f <<< 16), ("stealth", 0x01 <<< 30), ("stst", 0x01 <<< 31)]
  let fields := fields.set "PWMCONF"
    [("pwm_ofs", 0xff), ("pwm_grad", 0xff <<< 8), ("pwm_freq", 0x03 <<< 16),
      ("pwm_autoscale", 0x01 <<< 18), ("pwm_autograd", 0x01 <<< 19), ("freewheel", 0x03 <<< 20),
      ("pwm_reg", 0xf <<< 24), ("pwm_lim", 0xf <<< 28)]
  let fields := fields.set "PWM_SCALE"
    [("pwm_scale_sum", 0xff), ("pwm_scale_auto", 0x1ff <<< 16)]
  let fields := fields.set "PWM_AUTO"
    [("pwm_ofs_auto", 0xff), ("pwm_grad_auto", 0xff <<< 16)]
  fields

/-- `SignedFields` of tmc2208.py -/
def tmc2208SignedFields : List String := ["cur_a", "cur_b", "pwm_scale_auto"]

/-- `Fields` of tmc2240.py -/
def tmc2240Fields : Dict (Dict Int) :=
  let fields : Dict (Dict Int) := []
  let fields := fields.set "COOLCONF"
    [("semin", 0x0F <<< 0), ("seup", 0x03 <<< 5), ("semax", 0x0F <<< 8), ("sedn", 0x03 <<< 13),
      ("seimin", 0x01 <<< 15), ("sgt", 0x7F <<< 16), ("sfilt", 0x01 <<< 24)]
  let fields := fields.set "CHOPCONF"
    [("toff", 0x0F <<< 0), ("hstrt", 0x07 <<< 4), ("hend", 0x0F <<< 7), ("fd3", 0x01 <<< 11),
      ("disfdcc", 0x01 <<< 12), ("chm", 0x01 <<< 14), ("tbl", 0x03 <<< 15),
      ("vhighfs", 0x01 <<< 18), ("vhighchm", 0x01 <<< 19), ("tpfd", 0x0F <<< 20),
      ("mres", 0x0F <<< 24), ("intpol", 0x01 <<< 28), ("dedge", 0x01 <<< 29),
      ("diss2g", 0x01 <<< 30), ("diss2vs", 0x01 <<< 31)]
  let fields := fields.set "DRV_STATUS"
    [("sg_result", 0x3FF <<< 0), ("s2vsa", 0x01 <<< 12), ("s2vsb", 0x01 <<< 13),
      ("stealth", 0x01 <<< 14), ("fsactive", 0x01 <<< 15), ("cs_actual", 0x1F <<< 16),
      ("stallguard", 0x01 <<< 24), ("ot", 0x01 <<< 25), ("otpw", 0x01 <<< 26),
      ("s2ga", 0x01 <<< 27), ("s2gb", 0x01 <<< 28), ("ola", 0x01 <<< 29), ("olb", 0x01 <<< 30),
      ("stst", 0x01 <<< 31)]
  let fields := fields.set "GCONF"
    [("faststandstill", 0x01 <<< 1), ("en_pwm_mode", 0x01 <<< 2), ("multistep_filt", 0x01 <<< 3),
      ("shaft", 0x01 <<< 4), ("diag0_error", 0x01 <<< 5), ("diag0_otpw", 0x01 <<< 6),
      ("diag0_stall", 0x01 <<< 7), ("diag1_stall", 0x01 <<< 8), ("diag1_index", 0x01 <<< 9),
      ("diag1_onstate", 0x01 <<< 10), ("diag0_pushpull", 0x01 <<< 12),
      ("diag1_pushpull", 0x01 <<< 13), ("small_hysteresis", 0x01 <<< 14),
      ("stop_enable", 0x01 <<< 15), ("direct_mode", 0x01 <<< 16)]
  let fields := fields.set "GSTAT"
    [("reset", 0x01 <<< 0), ("drv_err", 0x01 <<< 1), ("uv_cp", 0x01 <<< 2),
      ("register_reset", 0x01 <<< 3), ("vm_uvlo", 0x01 <<< 4)]
  let fields := fields.set "GLOBALSCALER"
    [("globalscaler", 0xFF <<< 0)]
  let fields := fields.set "IHOLD_IRUN"
    [("ihold", 0x1F <<< 0), ("irun", 0x1F <<< 8), ("iholddelay", 0x0F <<< 16),
      ("irundelay", 0x0F <<< 24)]
  let fields := fields.set "IOIN"
    [("step", 0x01 <<< 0), ("dir", 0x01 <<< 1), ("encb", 0x01 <<< 2), ("enca", 0x01 <<< 3),
      ("drv_enn", 0x01 <<< 4), ("encn", 0x01 <<< 5), ("uart_en", 0x01 <<< 6),
      ("comp_a", 0x01 <<< 8), ("comp_b", 0x01 <<< 9), ("comp_a1_a2", 0x01 <<< 10),
      ("comp_b1_b2", 0x01 <<< 11), ("output", 0x01 <<< 12), ("ext_res_det", 0x01 <<< 13),
      ("ext_clk", 0x01 <<< 14), ("adc_err", 0x01 <<< 15), ("silicon_rv", 0x07 <<< 16),
      ("version", 0xFF <<< 24)]
  let fields := fields.set "MSLUT0"
    [("mslut0", 0xffffffff)]
  let fields := fields.set "MSLUT1"
    [("mslut1", 0xffffffff)]
  let fields := fields.set "MSLUT2"
    [("mslut2", 0xffffffff)]
  let fields := fields.set "MSLUT3"
    [("mslut3", 0xffffffff)]
  let fields := fields.set "MSLUT4"
    [("mslut4", 0xffffffff)]
  let fields := fields.set "MSLUT5"
    [("mslut5", 0xffffffff)]
  let fields := fields.set "MSLUT6"
    [("mslut6", 0xffffffff)]
  let fields := fields.set "MSLUT7"
    [("mslut7", 0xffffffff)]
  let fields := fields.set "MSLUTSEL"
    [("x3", 0xFF <<< 24), ("x2", 0xFF <<< 16), ("x1", 0xFF <<< 8), ("w3", 0x03 <<< 6),
      ("w2", 0x03 <<< 4), ("w1", 0x03 <<< 2), ("w0", 0x03 <<< 0)]
  let fields := fields.set "MSLUTSTART"
    [("start_sin", 0xFF <<< 0), ("start_sin90", 0xFF <<< 16), ("offset_sin90", 0xFF <<< 24)]
  let fields := fields.set "MSCNT"
    [("mscnt", 0x3ff <<< 0)]
  let fields := fields.set "MSCURACT"
    [("cur_a", 0x1ff <<< 0), ("cur_b", 0x1ff <<< 16)]
  let fields := fields.set "PWM_AUTO"
    [("pwm_ofs_auto", 0xff <<< 0), ("pwm_grad_auto", 0xff <<< 16)]
  let fields := fields.set "PWMCONF"
    [("pwm_ofs", 0xFF <<< 0), ("pwm_grad", 0xFF <<< 8), ("pwm_freq", 0x03 <<< 16),
      ("pwm_autoscale", 0x01 <<< 18), ("pwm_autograd", 0x01 <<< 19), ("freewheel", 0x03 <<< 20),
      ("pwm_meas_sd_enable", 0x01 <<< 22), ("pwm_dis_reg_stst", 0x01 <<< 23),
      ("pwm_reg", 0x0F <<< 24), ("pwm_lim", 0x0F <<< 28)]
  let fields := fields.set "PWM_SCALE"
    [("pwm_scale_sum", 0x3ff <<< 0), ("pwm_scale_auto", 0x1ff <<< 16)]
  let fields := fields.set "TPOWERDOWN"
    [("tpowerdown", 0xff <<< 0)]
  let fields := fields.set "TPWMTHRS"
    [("tpwmthrs", 0xfffff <<< 0)]
  let fields := fields.set "TCOOLTHRS"
    [("tcoolthrs", 0xfffff <<< 0)]
  let fields := fields.set "TSTEP"
    [("tstep", 0xfffff <<< 0)]
  let fields := fields.set "THIGH"
    [("thigh", 0xfffff <<< 0)]
  let fields := fields.set "DRV_CONF"
    [("current_range", 0x03 <<< 0), ("slope_control", 0x03 <<< 4)]
  let fields := fields.set "ADC_VSUPPLY_AIN"
    [("adc_vsupply", 0x1fff <<< 0), ("adc_ain", 0x1fff <<< 16)]
  let fields := fields.set "ADC_TEMP"
    [("adc_temp", 0x1fff <<< 0)]
  let fields := fields.set "OTW_OV_VTH"
    [("overvoltage_vth", 0x1fff <<< 0), ("overtempprewarning_vth", 0x1fff <<< 16)]
  let fields := fields.set "SG4_THRS"
    [("sg4_thrs", 0xFF <<< 0), ("sg4_filt_en", 0x01 <<< 8), ("sg4_angle_offset", 0x01 <<< 9)]
  let fields := fields.set "SG4_RESULT"
    [("sg4_result", 0x3FF <<< 0)]
  let fields := fields.set "SG4_IND"
    [("sg4_ind_0", 0xFF <<< 0), ("sg4_ind_1", 0xFF <<< 8), ("sg4_ind_2", 0xFF <<< 16),
      ("sg4_ind_3", 0xFF <<< 24)]
  fields

/-- `SignedFields` of tmc2240.py -/
def tmc2240SignedFields : List String := ["cur_a", "cur_b", "sgt", "pwm_scale_auto", "offset_sin90"]

/-- `Fields` of tmc2660.py -/
def tmc2660Fields : Dict (Dict Int) :=
  let fields : Dict (Dict Int) := []
  let fields := fields.set "DRVCTRL"
    [("mres", 0x0f), ("dedge", 0x01 <<< 8), ("intpol", 0x01 <<< 9)]
  let fields := fields.set "CHOPCONF"
    [("toff", 0x0f), ("hstrt", 0x7 <<< 4), ("hend", 0x0f <<< 7), ("hdec", 0x03 <<< 11),
      ("rndtf", 0x01 <<< 13), ("chm", 0x01 <<< 14), ("tbl", 0x03 <<< 15)]
  let fields := fields.set "SMARTEN"
    [("semin", 0x0f), ("seup", 0x03 <<< 5), ("semax", 0x0f <<< 8), ("sedn", 0x03 <<< 13),
      ("seimin", 0x01 <<< 15)]
  let fields := fields.set "SGCSCONF"
    [("cs", 0x1f), ("sgt", 0x7F <<< 8), ("sfilt", 0x01 <<< 16)]
  let fields := fields.set "DRVCONF"
    [("rdsel", 0x03 <<< 4), ("vsense", 0x01 <<< 6), ("sdoff", 0x01 <<< 7), ("ts2g", 0x03 <<< 8),
      ("diss2g", 0x01 <<< 10), ("slpl", 0x03 <<< 12), ("slph", 0x03 <<< 14), ("tst", 0x01 <<< 16)]
  let fields := fields.set "READRSP@RDSEL0"
    [("stallguard", 0x01 <<< 4), ("ot", 0x01 <<< 5), ("otpw", 0x01 <<< 6), ("s2ga", 0x01 <<< 7),
      ("s2gb", 0x01 <<< 8), ("ola", 0x01 <<< 9), ("olb", 0x01 <<< 10), ("stst", 0x01 <<< 11),
      ("mstep", 0x3ff <<< 14)]
  let fields := fields.set "READRSP@RDSEL1"
    [("stallguard", 0x01 <<< 4), ("ot", 0x01 <<< 5), ("otpw", 0x01 <<< 6), ("s2ga", 0x01 <<< 7),
      ("s2gb", 0x01 <<< 8), ("ola", 0x01 <<< 9), ("olb", 0x01 <<< 10), ("stst", 0x01 <<< 11),
      ("sg_result", 0x3ff <<< 14)]
  let fields := fields.set "READRSP@RDSEL2"
    [("stallguard", 0x01 <<< 4), ("ot", 0x01 <<< 5), ("otpw", 0x01 <<< 6), ("s2ga", 0x01 <<< 7),
      ("s2gb", 0x01 <<< 8), ("ola", 0x01 <<< 9), ("olb", 0x01 <<< 10), ("stst", 0x01 <<< 11),
      ("se", 0x1f <<< 14), ("sg_result@rdsel2", 0x1f <<< 19)]
  fields

/-- `SignedFields` of tmc2660.py -/
def tmc2660SignedFields : List String := ["sgt"]

/-- `Fields` of tmc5160.py -/
def tmc5160Fields : Dict (Dict Int) :=
  let fields : Dict (Dict Int) := []
  let fields := fields.set "COOLCONF"
    [("semin", 0x0F <<< 0), ("seup", 0x03 <<< 5), ("semax", 0x0F <<< 8), ("sedn", 0x03 <<< 13),
      ("seimin", 0x01 <<< 15), ("sgt", 0x7F <<< 16), ("sfilt", 0x01 <<< 24)]
  let fields := fields.set "CHOPCONF"
    [("toff", 0x0F <<< 0), ("hstrt", 0x07 <<< 4), ("hend", 0x0F <<< 7), ("fd3", 0x01 <<< 11),
      ("disfdcc", 0x01 <<< 12), ("chm", 0x01 <<< 14), ("tbl", 0x03 <<< 15),
      ("vhighfs", 0x01 <<< 18), ("vhighchm", 0x01 <<< 19), ("tpfd", 0x0F <<< 20),
      ("mres", 0x0F <<< 24), ("intpol", 0x01 <<< 28), ("dedge", 0x01 <<< 29),
      ("diss2g", 0x01 <<< 30), ("diss2vs", 0x01 <<< 31)]
  let fields := fields.set "DRV_CONF"
    [("bbmtime", 0x1F <<< 0), ("bbmclks", 0x0F <<< 8), ("otselect", 0x03 <<< 16),
      ("drvstrength", 0x03 <<< 18), ("filt_isense", 0x03 <<< 20)]
  let fields := fields.set "DRV_STATUS"
    [("sg_result", 0x3FF <<< 0), ("s2vsa", 0x01 <<< 12), ("s2vsb", 0x01 <<< 13),
      ("stealth", 0x01 <<< 14), ("fsactive", 0x01 <<< 15), ("cs_actual", 0x1F <<< 16),
      ("stallguard", 0x01 <<< 24), ("ot", 0x01 <<< 25), ("otpw", 0x01 <<< 26),
      ("s2ga", 0x01 <<< 27), ("s2gb", 0x01 <<< 28), ("ola", 0x01 <<< 29), ("olb", 0x01 <<< 30),
      ("stst", 0x01 <<< 31)]
  let fields := fields.set "FACTORY_CONF"
    [("factory_conf", 0x1F <<< 0)]
  let fields := fields.set "GCONF"
    [("recalibrate", 0x01 <<< 0), ("faststandstill", 0x01 <<< 1), ("en_pwm_mode", 0x01 <<< 2),
      ("multistep_filt", 0x01 <<< 3), ("shaft", 0x01 <<< 4), ("diag0_error", 0x01 <<< 5),
      ("diag0_otpw", 0x01 <<< 6), ("diag0_stall", 0x01 <<< 7), ("diag1_stall", 0x01 <<< 8),
      ("diag1_index", 0x01 <<< 9), ("diag1_onstate", 0x01 <<< 10),
      ("diag1_steps_skipped", 0x01 <<< 11), ("diag0_int_pushpull", 0x01 <<< 12),
      ("diag1_poscomp_pushpull", 0x01 <<< 13), ("small_hysteresis", 0x01 <<< 14),
      ("stop_enable", 0x01 <<< 15), ("direct_mode", 0x01 <<< 16), ("test_mode", 0x01 <<< 17)]
  let fields := fields.set "GSTAT"
    [("reset", 0x01 <<< 0), ("drv_err", 0x01 <<< 1), ("uv_cp", 0x01 <<< 2)]
  let fields := fields.set "GLOBALSCALER"
    [("globalscaler", 0xFF <<< 0)]
  let fields := fields.set "IHOLD_IRUN"
    [("ihold", 0x1F <<< 0), ("irun", 0x1F <<< 8), ("iholddelay", 0x0F <<< 16)]
  let fields := fields.set "IOIN"
    [("refl_step", 0x01 <<< 0), ("refr_dir", 0x01 <<< 1), ("encb_dcen_cfg4", 0x01 <<< 2),
      ("enca_dcin_cfg5", 0x01 <<< 3), ("drv_enn", 0x01 <<< 4), ("enc_n_dco_cfg6", 0x01 <<< 5),
      ("sd_mode", 0x01 <<< 6), ("swcomp_in", 0x01 <<< 7), ("version", 0xFF <<< 24)]
  let fields := fields.set "LOST_STEPS"
    [("lost_steps", 0xfffff <<< 0)]
  let fields := fields.set "MSLUT0"
    [("mslut0", 0xffffffff)]
  let fields := fields.set "MSLUT1"
    [("mslut1", 0xffffffff)]
  let fields := fields.set "MSLUT2"
    [("mslut2", 0xffffffff)]
  let fields := fields.set "MSLUT3"
    [("mslut3", 0xffffffff)]
  let fields := fields.set "MSLUT4"
    [("mslut4", 0xffffffff)]
  let fields := fields.set "MSLUT5"
    [("mslut5", 0xffffffff)]
  let fields := fields.set "MSLUT6"
    [("mslut6", 0xffffffff)]
  let fields := fields.set "MSLUT7"
    [("mslut7", 0xffffffff)]
  let fields := fields.set "MSLUTSEL"
    [("x3", 0xFF <<< 24), ("x2", 0xFF <<< 16), ("x1", 0xFF <<< 8), ("w3", 0x03 <<< 6),
      ("w2", 0x03 <<< 4), ("w1", 0x03 <<< 2), ("w0", 0x03 <<< 0)]
  let fields := fields.set "MSLUTSTART"
    [("start_sin", 0xFF <<< 0), ("start_sin90", 0xFF <<< 16)]
  let fields := fields.set "MSCNT"
    [("mscnt", 0x3ff <<< 0)]
  let fields := fields.set "MSCURACT"
    [("cur_a", 0x1ff <<< 0), ("cur_b", 0x1ff <<< 16)]
  let fields := fields.set "OTP_READ"
    [("otp_fclktrim", 0x1f <<< 0), ("otp_s2_level", 0x01 <<< 5), ("otp_bbm", 0x01 <<< 6),
      ("otp_tbl", 0x01 <<< 7)]
  let fields := fields.set "PWM_AUTO"
    [("pwm_ofs_auto", 0xff <<< 0), ("pwm_grad_auto", 0xff <<< 16)]
  let fields := fields.set "PWMCONF"
    [("pwm_ofs", 0xFF <<< 0), ("pwm_grad", 0xFF <<< 8), ("pwm_freq", 0x03 <<< 16),
      ("pwm_autoscale", 0x01 <<< 18), ("pwm_autograd", 0x01 <<< 19), ("freewheel", 0x03 <<< 20),
      ("pwm_reg", 0x0F <<< 24), ("pwm_lim", 0x0F <<< 28)]
  let fields := fields.set "PWM_SCALE"
    [("pwm_scale_sum", 0xff <<< 0), ("pwm_scale_auto", 0x1ff <<< 16)]
  let fields := fields.set "TPOWERDOWN"
    [("tpowerdown", 0xff <<< 0)]
  let fields := fields.set "TPWMTHRS"
    [("tpwmthrs", 0xfffff <<< 0)]
  let fields := fields.set "TCOOLTHRS"
    [("tcoolthrs", 0xfffff <<< 0)]
  let fields := fields.set "TSTEP"
    [("tstep", 0xfffff <<< 0)]
  let fields := fields.set "THIGH"
    [("thigh", 0xfffff <<< 0)]
  fields

/-- `SignedFields` of tmc5160.py -/
def tmc5160SignedFields : List String := ["cur_a", "cur_b", "sgt", "xactual", "vactual",
    "pwm_scale_auto"]

/-- `Fields` of tmc2209.py: a copy of those of tmc2208.py with five registers set. -/
def tmc2209Fields : Dict (Dict Int) :=
  let fields : Dict (Dict Int) := tmc2208Fields
  let fields := fields.set "COOLCONF"
    [("semin", 0x0F <<< 0), ("seup", 0x03 <<< 5), ("semax", 0x0F <<< 8), ("sedn", 0x03 <<< 13),
      ("seimin", 0x01 <<< 15)]
  let fields := fields.set "IOIN"
    [("enn", 0x01 <<< 0), ("ms1", 0x01 <<< 2), ("ms2", 0x01 <<< 3), ("diag", 0x01 <<< 4),
      ("pdn_uart", 0x01 <<< 6), ("step", 0x01 <<< 7), ("spread_en", 0x01 <<< 8),
      ("dir", 0x01 <<< 9), ("version", 0xff <<< 24)]
  let fields := fields.set "SGTHRS"
    [("sgthrs", 0xFF <<< 0)]
  let fields := fields.set "SG_RESULT"
    [("sg_result", 0x3FF <<< 0)]
  let fields := fields.set "TCOOLTHRS"
    [("tcoolthrs", 0xfffff)]
  fields

/-- The field helpers the drivers make, `tmc.FieldHelper(Fields, SignedFields, ...)`, in the
    order tmc2130, tmc2208, tmc2209, tmc2240, tmc2660, tmc5160. -/
def driverFieldHelpers : List FieldHelper :=
  [.init tmc2130Fields tmc2130SignedFields, .init tmc2208Fields tmc2208SignedFields,
    .init tmc2209Fields tmc2208SignedFields, .init tmc2240Fields tmc2240SignedFields,
    .init tmc2660Fields tmc2660SignedFields, .init tmc5160Fields tmc5160SignedFields]

/-! ## Every entry is a run -/

/-- The width of a mask's run, `maxval.bit_length()` for `maxval = mask >> ffs(mask)`. -/
def maskWidth (mask : Int) : Nat := bitLength (mask >>> ffs mask)

/-- The position of a mask's run, `ffs(mask)`. -/
def maskShift (mask : Int) : Nat := (ffs mask).toNat

/-- What each entry of a table has: its mask is the run of its width from its position, inside
    32 bits; the helper finds it under its register and name; a signed field has more than one
    bit; and it misses the mask of every other field of the register. -/
def EntryOk (fh : FieldHelper) (reg : String × Dict Int) (f : String × Int) : Prop :=
  0 < maskWidth f.2 ∧ maskShift f.2 + maskWidth f.2 ≤ 32 ∧
    f.2 = (run (maskWidth f.2) (maskShift f.2) : Int) ∧ fh.mask reg.1 f.1 = some f.2 ∧
    (f.1 ∈ fh.signedFields → 1 < maskWidth f.2) ∧ ∀ g ∈ reg.2, g.1 ≠ f.1 → Int.land f.2 g.2 = 0

instance entryOkDecidable (fh : FieldHelper) (reg : String × Dict Int) (f : String × Int) :
    Decidable (EntryOk fh reg f) := by
  unfold EntryOk
  infer_instance

theorem driverFieldHelpers_entryOk :
    ∀ fh ∈ driverFieldHelpers, ∀ reg ∈ fh.allFields, ∀ f ∈ reg.2, EntryOk fh reg f := by
  decide +kernel

/-! ## The codec law -/

/-- In every driver's tables every mask is a run of `w ≥ 1` bits at some position `s`, inside 32
    bits, and misses the masks of the other fields of its register; `set_config_field` admits
    exactly the values of the field's range; and writing such a value into any 32-bit register
    value with `set_field` gives a value from which `get_field` reads it back, that keeps every bit
    outside the mask, and from which every other field of the register reads as before. -/
theorem tmc_field_codec :
    ∀ fh ∈ driverFieldHelpers, ∀ reg ∈ fh.allFields, ∀ f ∈ reg.2,
      ∃ w s : Nat, 0 < w ∧ s + w ≤ 32 ∧ f.2 = (run w s : Int) ∧
        (∀ g ∈ reg.2, g.1 ≠ f.1 → Int.land f.2 g.2 = 0) ∧
        (∀ v : Int, ((configBounds (decide (f.1 ∈ fh.signedFields)) f.2).1 ≤ v ∧
            v ≤ (configBounds (decide (f.1 ∈ fh.signedFields)) f.2).2) ↔
          FieldRange (decide (f.1 ∈ fh.signedFields)) w v) ∧
        ∀ r : Int, 0 ≤ r → r < 2 ^ 32 → ∀ v : Int,
          FieldRange (decide (f.1 ∈ fh.signedFields)) w v →
          ∃ fh' r', fh.setField f.1 v (some r) (some reg.1) = some (fh', r') ∧
            fh'.getField f.1 (some r') (some reg.1) = some v ∧
            Int.land r' (Int.lnot f.2) = Int.land r (Int.lnot f.2) ∧
            ∀ g ∈ reg.2, g.1 ≠ f.1 →
              fh'.getField g.1 (some r') (some reg.1) = fh.getField g.1 (some r) (some reg.1) := by
  intro fh hfh reg hreg f hf
  obtain ⟨hw, h32, hrun, hmask, hsigned, hdisj⟩ := driverFieldHelpers_entryOk fh hfh reg hreg f hf
  -- name the run's width and position, and put the run for the mask
  obtain ⟨name, mask⟩ := f
  generalize maskWidth mask = w at hw h32 hrun hsigned
  generalize maskShift mask = s at h32 hrun
  subst hrun
  refine ⟨w, s, hw, h32, rfl, hdisj,
    fun v => configBounds_run hw s _ (fun h => hsigned (by simpa using h)) v, ?_⟩
  intro r hr _ v hv
  -- the register value is a natural number
  obtain ⟨n, rfl⟩ := Int.eq_ofNat_of_zero_le hr
  obtain ⟨fh', r', hset, hget, hkeep, hother⟩ := FieldHelper.setField_spec hw hmask hv
  refine ⟨fh', r', hset, hget, hkeep, ?_⟩
  intro g hg hne
  -- the other field's mask is a run too, and misses this one
  have hd := hdisj g hg hne
  obtain ⟨-, -, hgrun, hgmask, -, -⟩ := driverFieldHelpers_entryOk fh hfh reg hreg g hg
  obtain ⟨gname, gmask⟩ := g
  generalize maskWidth gmask = gw at hgrun
  generalize maskShift gmask = gs at hgrun
  subst hgrun
  exact hother gname _ hgmask hd

/-- The `irun` field of the `IHOLD_IRUN` register of the tmc2130. -/
theorem tmc_field_codec_irun :
    ∃ w s : Nat, 0 < w ∧ s + w ≤ 32 ∧ ((0x1f : Int) <<< 8) = (run w s : Int) ∧
      (∀ g ∈ [("ihold", (0x1f : Int) <<< 0), ("irun", 0x1f <<< 8), ("iholddelay", 0x0f <<< 16)],
        g.1 ≠ "irun" → Int.land (0x1f <<< 8) g.2 = 0) ∧
      (∀ v : Int, ((configBounds (decide ("irun" ∈ tmc2130SignedFields)) (0x1f <<< 8)).1 ≤ v ∧
          v ≤ (configBounds (decide ("irun" ∈ tmc2130SignedFields)) (0x1f <<< 8)).2) ↔
        FieldRange (decide ("irun" ∈ tmc2130SignedFields)) w v) ∧
      ∀ r : Int, 0 ≤ r → r < 2 ^ 32 → ∀ v : Int,
        FieldRange (decide ("irun" ∈ tmc2130SignedFields)) w v →
        ∃ fh' r', (FieldHelper.init tmc2130Fields tmc2130SignedFields).setField "irun" v (some r)
            (some "IHOLD_IRUN") = some (fh', r') ∧
          fh'.getField "irun" (some r') (some "IHOLD_IRUN") = some v ∧
          Int.land r' (Int.lnot (0x1f <<< 8)) = Int.land r (Int.lnot (0x1f <<< 8)) ∧
          ∀ g ∈ [("ihold", (0x1f : Int) <<< 0), ("irun", 0x1f <<< 8), ("iholddelay", 0x0f <<< 16)],
            g.1 ≠ "irun" →
            fh'.getField g.1 (some r') (some "IHOLD_IRUN") =
              (FieldHelper.init tmc2130Fields tmc2130SignedFields).getField g.1 (some r)
                (some "IHOLD_IRUN") :=
  tmc_field_codec _ List.mem_cons_self
    ("IHOLD_IRUN", [("ihold", 0x1f <<< 0), ("irun", 0x1f <<< 8), ("iholddelay", 0x0f <<< 16)])
    (by decide +kernel) ("irun", 0x1f <<< 8) (by decide +kernel)

end Klipper.Tmc
