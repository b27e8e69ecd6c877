import Relink.Library.Layout
import Relink.Wire.Frame

/-! The message types of `wire.hpp` and `standard_msgs.hpp`.

Packed structures of fixed size, declared once in each build. Python calls a text buffer by a name
with an underscore, and gives it a setter and a getter. The empty structure is left out: it has no
field to read. -/
namespace Relink.Message
open Wire

/-- The scalar types that fields are made of. -/
inductive Prim where
  | u8 | i8 | u16 | i16 | u32 | i32 | u64 | i64 | f32 | f64 | char | bool
deriving DecidableEq, Repr

def Prim.width : Prim → Nat
  | .u8 | .i8 | .char | .bool => 1
  | .u16 | .i16 => 2
  | .u32 | .i32 | .f32 => 4
  | .u64 | .i64 | .f64 => 8

section
variable {L : Type}

def u8 : Layout.Ty Prim L := .prim .u8
def i8 : Layout.Ty Prim L := .prim .i8
def u16 : Layout.Ty Prim L := .prim .u16
def i16 : Layout.Ty Prim L := .prim .i16
def u32 : Layout.Ty Prim L := .prim .u32
def i32 : Layout.Ty Prim L := .prim .i32
def u64 : Layout.Ty Prim L := .prim .u64
def i64 : Layout.Ty Prim L := .prim .i64
def f32 : Layout.Ty Prim L := .prim .f32
def f64 : Layout.Ty Prim L := .prim .f64

/-- `char[n]`. -/
def text (n : Nat) : Layout.Ty Prim L := .array n (.prim .char)

def record (fields : List (L × Layout.Ty Prim L)) : Layout.Ty Prim L :=
  .record (Layout.Fields.ofList fields)

end

/-- `sizeof`. -/
abbrev sizeof {L : Type} (t : Layout.Ty Prim L) : Nat := t.size Prim.width

/-! ### The C++ build -/

namespace Cpp

abbrev Ty := Layout.Ty Prim String

/-- The structures of `wire.hpp` around one scalar. -/
def data (scalar : Ty) : Ty := record [("data", scalar)]

def bool : Ty := data u8
def byte : Ty := data u8
def char : Ty := data u8
def int8 : Ty := data i8
def int16 : Ty := data i16
def int32 : Ty := data i32
def int64 : Ty := data i64
def uInt8 : Ty := data u8
def uInt16 : Ty := data u16
def uInt32 : Ty := data u32
def uInt64 : Ty := data u64
def float32 : Ty := data f32
def float64 : Ty := data f64

def time : Ty := record [("sec", u32), ("nsec", u32)]

def duration : Ty := record [("sec", i32), ("nsec", i32)]

def colorRGBA : Ty := record [("r", f32), ("g", f32), ("b", f32), ("a", f32)]

def kFrameIdMaxLen : Nat := 32
def header : Ty := record [("seq", u32), ("stamp", time), ("frame_id", text kFrameIdMaxLen)]

def kStringMaxLen : Nat := 64
def string : Ty := record [("data", text kStringMaxLen)]

def vector3 : Ty := record [("x", f32), ("y", f32), ("z", f32)]

def point : Ty := record [("x", f32), ("y", f32), ("z", f32)]

def quaternion : Ty := record [("x", f32), ("y", f32), ("z", f32), ("w", f32)]

def pose : Ty := record [("position", point), ("orientation", quaternion)]

def twist : Ty := record [("linear", vector3), ("angular", vector3)]

def accel : Ty := record [("linear", vector3), ("angular", vector3)]

def wrench : Ty := record [("force", vector3), ("torque", vector3)]

def poseStamped : Ty := record [("header", header), ("pose", pose)]

def twistStamped : Ty := record [("header", header), ("twist", twist)]

def point32 : Ty := record [("x", f32), ("y", f32), ("z", f32)]

def transform : Ty := record [("translation", vector3), ("rotation", quaternion)]

def transformStamped : Ty := record [
  ("header", header), ("child_frame_id", text kFrameIdMaxLen), ("transform", transform)]

def poseWithCovariance : Ty := record [("pose", pose), ("covariance", .array 36 f32)]

def twistWithCovariance : Ty := record [("twist", twist), ("covariance", .array 36 f32)]

def kMaxPosesInArray : Nat := 16
def poseArray : Ty := record [
  ("header", header), ("count", u32), ("poses", .array kMaxPosesInArray pose)]

def kMaxPolygonPoints : Nat := 16
def polygon : Ty := record [("count", u32), ("points", .array kMaxPolygonPoints point32)]

def imu : Ty := record [
  ("header", header), ("orientation", quaternion), ("orientation_covariance", .array 9 f32),
  ("angular_velocity", vector3), ("angular_velocity_covariance", .array 9 f32),
  ("linear_acceleration", vector3), ("linear_acceleration_covariance", .array 9 f32)]

def navSatStatus : Ty := record [("status", i8), ("service", u16)]

def navSatFix : Ty := record [
  ("header", header), ("status", navSatStatus), ("latitude", f64), ("longitude", f64),
  ("altitude", f64), ("position_covariance", .array 9 f64), ("position_covariance_type", u8)]

def magneticField : Ty := record [
  ("header", header), ("magnetic_field", vector3), ("magnetic_field_covariance", .array 9 f32)]

def temperature : Ty := record [("header", header), ("temperature", f64), ("variance", f64)]

def range : Ty := record [
  ("header", header), ("radiation_type", u8), ("field_of_view", f32), ("min_range", f32),
  ("max_range", f32), ("range", f32)]

def regionOfInterest : Ty := record [
  ("x_offset", u32), ("y_offset", u32), ("height", u32), ("width", u32), ("do_rectify", u8)]

def kMaxDistortionCoeffs : Nat := 8
def cameraInfo : Ty := record [
  ("header", header), ("height", u32), ("width", u32), ("distortion_model", text kStringMaxLen),
  ("d_count", u32), ("D", .array kMaxDistortionCoeffs f64), ("K", .array 9 f64),
  ("R", .array 9 f64), ("P", .array 12 f64), ("binning_x", u32), ("binning_y", u32),
  ("roi", regionOfInterest)]

def pointField : Ty := record [
  ("name", text kStringMaxLen), ("offset", u32), ("datatype", u8), ("count", u32)]

def kMaxPointFields : Nat := 4
def kMaxPointCloudBytes : Nat := 900
def pointCloud2 : Ty := record [
  ("header", header), ("height", u32), ("width", u32), ("fields_count", u32),
  ("fields", .array kMaxPointFields pointField), ("is_bigendian", u8), ("point_step", u32),
  ("row_step", u32), ("data_len", u32), ("data", .array kMaxPointCloudBytes u8), ("is_dense", u8)]

def kMaxLaserScanPoints : Nat := 120
def laserScan : Ty := record [
  ("header", header), ("angle_min", f32), ("angle_max", f32), ("angle_increment", f32),
  ("time_increment", f32), ("scan_time", f32), ("range_min", f32), ("range_max", f32),
  ("ranges_count", u32), ("ranges", .array kMaxLaserScanPoints f32), ("intensities_count", u32),
  ("intensities", .array kMaxLaserScanPoints f32)]

def kMaxJoints : Nat := 8
def jointState : Ty := record [
  ("header", header), ("count", u32), ("name", .array kMaxJoints (text kStringMaxLen)),
  ("position", .array kMaxJoints f64), ("velocity", .array kMaxJoints f64),
  ("effort", .array kMaxJoints f64)]

def odometry : Ty := record [
  ("header", header), ("child_frame_id", text kFrameIdMaxLen), ("pose", pose),
  ("pose_covariance", .array 36 f32), ("twist", twist), ("twist_covariance", .array 36 f32)]

def mapMetaData : Ty := record [
  ("map_load_time", time), ("resolution", f32), ("width", u32), ("height", u32), ("origin", pose)]

def kMaxPathPoses : Nat := 16
def path : Ty := record [
  ("header", header), ("count", u32), ("poses", .array kMaxPathPoses poseStamped)]

def kMaxOccupancyGridCells : Nat := 1024
def occupancyGrid : Ty := record [
  ("header", header), ("info", mapMetaData), ("data_len", u32),
  ("data", .array kMaxOccupancyGridCells i8)]

def kMaxGridCells : Nat := 64
def gridCells : Ty := record [
  ("header", header), ("cell_width", f32), ("cell_height", f32), ("count", u32),
  ("cells", .array kMaxGridCells point)]

def kKvMaxLen : Nat := 32
def keyValue : Ty := record [("key", text kKvMaxLen), ("value", text kKvMaxLen)]

def kMaxKeyValues : Nat := 3
def diagnosticStatus : Ty := record [
  ("level", i8), ("name", text kStringMaxLen), ("message", text kStringMaxLen),
  ("hardware_id", text kStringMaxLen), ("values_count", u32),
  ("values", .array kMaxKeyValues keyValue)]

def kMaxDiagnosticStatuses : Nat := 3
def diagnosticArray : Ty := record [
  ("header", header), ("status_count", u32),
  ("status", .array kMaxDiagnosticStatuses diagnosticStatus)]

def kMaxDOF : Nat := 4
def jointTrajectoryPoint : Ty := record [
  ("count", u32), ("positions", .array kMaxDOF f64), ("velocities", .array kMaxDOF f64),
  ("accelerations", .array kMaxDOF f64), ("effort", .array kMaxDOF f64),
  ("time_from_start", duration)]

def kMaxTrajectoryPoints : Nat := 6
def jointTrajectory : Ty := record [
  ("header", header), ("joint_names_count", u32),
  ("joint_names", .array kMaxDOF (text kStringMaxLen)), ("points_count", u32),
  ("points", .array kMaxTrajectoryPoints jointTrajectoryPoint)]

def multiDOFJointTrajectoryPoint : Ty := record [
  ("count", u32), ("transforms", .array kMaxDOF transform), ("velocities", .array kMaxDOF twist),
  ("accelerations", .array kMaxDOF twist), ("time_from_start", duration)]

def kMaxMultiDOFTrajectoryPoints : Nat := 3
def multiDOFJointTrajectory : Ty := record [
  ("header", header), ("joint_names_count", u32),
  ("joint_names", .array kMaxDOF (text kStringMaxLen)), ("points_count", u32),
  ("points", .array kMaxMultiDOFTrajectoryPoints multiDOFJointTrajectoryPoint)]

def goalID : Ty := record [("stamp", time), ("id", text kStringMaxLen)]

def goalStatus : Ty := record [("goal_id", goalID), ("status", u8), ("text", text kStringMaxLen)]

def kMaxGoalStatuses : Nat := 8
def goalStatusArray : Ty := record [
  ("header", header), ("status_list_count", u32),
  ("status_list", .array kMaxGoalStatuses goalStatus)]

end Cpp

/-! ### The Python build -/

namespace Py

/-- A field of a `ctypes` structure; the underscore of a hidden one is not part of `name`. -/
inductive Attr where
  | shown (name : String)
  | hidden (name : String)
deriving DecidableEq, Repr

instance : Coe String Attr := ⟨.shown⟩

/-- What C++ calls it. -/
def Attr.name : Attr → String
  | .shown name => name
  | .hidden name => name

abbrev Ty := Layout.Ty Prim Attr

def wireStruct (scalar : Ty) : Ty := record [("data", scalar)]

def bool : Ty := wireStruct u8
def byte : Ty := wireStruct u8
def char : Ty := wireStruct u8
def int8 : Ty := wireStruct i8
def int16 : Ty := wireStruct i16
def int32 : Ty := wireStruct i32
def int64 : Ty := wireStruct i64
def uInt8 : Ty := wireStruct u8
def uInt16 : Ty := wireStruct u16
def uInt32 : Ty := wireStruct u32
def uInt64 : Ty := wireStruct u64
def float32 : Ty := wireStruct f32
def float64 : Ty := wireStruct f64

def maxPayloadBytes : Nat := 1400
def frameIdMaxLen : Nat := 32
def stringMaxLen : Nat := 64
def time : Ty := record [("sec", u32), ("nsec", u32)]

def duration : Ty := record [("sec", i32), ("nsec", i32)]

def colorRGBA : Ty := record [("r", f32), ("g", f32), ("b", f32), ("a", f32)]

def header : Ty := record [("seq", u32), ("stamp", time), (.hidden "frame_id", text frameIdMaxLen)]

def string : Ty := record [(.hidden "data", text stringMaxLen)]

def maxPosesInArray : Nat := 16
def maxPolygonPoints : Nat := 16
def vector3 : Ty := record [("x", f32), ("y", f32), ("z", f32)]

def point : Ty := record [("x", f32), ("y", f32), ("z", f32)]

def point32 : Ty := record [("x", f32), ("y", f32), ("z", f32)]

def quaternion : Ty := record [("x", f32), ("y", f32), ("z", f32), ("w", f32)]

def pose : Ty := record [("position", point), ("orientation", quaternion)]

def twist : Ty := record [("linear", vector3), ("angular", vector3)]

def accel : Ty := record [("linear", vector3), ("angular", vector3)]

def wrench : Ty := record [("force", vector3), ("torque", vector3)]

def poseStamped : Ty := record [("header", header), ("pose", pose)]

def twistStamped : Ty := record [("header", header), ("twist", twist)]

def transform : Ty := record [("translation", vector3), ("rotation", quaternion)]

def transformStamped : Ty := record [
  ("header", header), (.hidden "child_frame_id", text frameIdMaxLen), ("transform", transform)]

def poseWithCovariance : Ty := record [("pose", pose), ("covariance", .array 36 f32)]

def twistWithCovariance : Ty := record [("twist", twist), ("covariance", .array 36 f32)]

def poseArray : Ty := record [
  ("header", header), ("count", u32), ("poses", .array maxPosesInArray pose)]

def polygon : Ty := record [("count", u32), ("points", .array maxPolygonPoints point32)]

def maxDistortionCoeffs : Nat := 8
def maxPointFields : Nat := 4
def maxPointCloudBytes : Nat := 900
def maxLaserScanPoints : Nat := 120
def maxJoints : Nat := 8
def imu : Ty := record [
  ("header", header), ("orientation", quaternion), ("orientation_covariance", .array 9 f32),
  ("angular_velocity", vector3), ("angular_velocity_covariance", .array 9 f32),
  ("linear_acceleration", vector3), ("linear_acceleration_covariance", .array 9 f32)]

def navSatStatus : Ty := record [("status", i8), ("service", u16)]

def navSatFix : Ty := record [
  ("header", header), ("status", navSatStatus), ("latitude", f64), ("longitude", f64),
  ("altitude", f64), ("position_covariance", .array 9 f64), ("position_covariance_type", u8)]

def magneticField : Ty := record [
  ("header", header), ("magnetic_field", vector3), ("magnetic_field_covariance", .array 9 f32)]

def temperature : Ty := record [("header", header), ("temperature", f64), ("variance", f64)]

def range : Ty := record [
  ("header", header), ("radiation_type", u8), ("field_of_view", f32), ("min_range", f32),
  ("max_range", f32), ("range", f32)]

def regionOfInterest : Ty := record [
  ("x_offset", u32), ("y_offset", u32), ("height", u32), ("width", u32), ("do_rectify", u8)]

def cameraInfo : Ty := record [
  ("header", header), ("height", u32), ("width", u32),
  (.hidden "distortion_model", text stringMaxLen), ("d_count", u32),
  ("D", .array maxDistortionCoeffs f64), ("K", .array 9 f64), ("R", .array 9 f64),
  ("P", .array 12 f64), ("binning_x", u32), ("binning_y", u32), ("roi", regionOfInterest)]

def pointField : Ty := record [
  (.hidden "name", text stringMaxLen), ("offset", u32), ("datatype", u8), ("count", u32)]

def pointCloud2 : Ty := record [
  ("header", header), ("height", u32), ("width", u32), ("fields_count", u32),
  ("fields", .array maxPointFields pointField), ("is_bigendian", u8), ("point_step", u32),
  ("row_step", u32), ("data_len", u32), ("data", .array maxPointCloudBytes u8), ("is_dense", u8)]

def laserScan : Ty := record [
  ("header", header), ("angle_min", f32), ("angle_max", f32), ("angle_increment", f32),
  ("time_increment", f32), ("scan_time", f32), ("range_min", f32), ("range_max", f32),
  ("ranges_count", u32), ("ranges", .array maxLaserScanPoints f32), ("intensities_count", u32),
  ("intensities", .array maxLaserScanPoints f32)]

def jointState : Ty := record [
  ("header", header), ("count", u32), (.hidden "name", .array maxJoints (text stringMaxLen)),
  ("position", .array maxJoints f64), ("velocity", .array maxJoints f64),
  ("effort", .array maxJoints f64)]

def maxPathPoses : Nat := 16
def maxOccupancyGridCells : Nat := 1024
def maxGridCells : Nat := 64
def odometry : Ty := record [
  ("header", header), (.hidden "child_frame_id", text frameIdMaxLen), ("pose", pose),
  ("pose_covariance", .array 36 f32), ("twist", twist), ("twist_covariance", .array 36 f32)]

def mapMetaData : Ty := record [
  ("map_load_time", time), ("resolution", f32), ("width", u32), ("height", u32), ("origin", pose)]

def path : Ty := record [
  ("header", header), ("count", u32), ("poses", .array maxPathPoses poseStamped)]

def occupancyGrid : Ty := record [
  ("header", header), ("info", mapMetaData), ("data_len", u32),
  ("data", .array maxOccupancyGridCells i8)]

def gridCells : Ty := record [
  ("header", header), ("cell_width", f32), ("cell_height", f32), ("count", u32),
  ("cells", .array maxGridCells point)]

def kvMaxLen : Nat := 32
def maxKeyValues : Nat := 3
def maxDiagnosticStatuses : Nat := 3
def keyValue : Ty := record [(.hidden "key", text kvMaxLen), (.hidden "value", text kvMaxLen)]

def diagnosticStatus : Ty := record [
  ("level", i8), (.hidden "name", text stringMaxLen), (.hidden "message", text stringMaxLen),
  (.hidden "hardware_id", text stringMaxLen), ("values_count", u32),
  ("values", .array maxKeyValues keyValue)]

def diagnosticArray : Ty := record [
  ("header", header), ("status_count", u32),
  ("status", .array maxDiagnosticStatuses diagnosticStatus)]

def maxDof : Nat := 4
def maxTrajectoryPoints : Nat := 6
def maxMultiDofTrajectoryPoints : Nat := 3
def jointTrajectoryPoint : Ty := record [
  ("count", u32), ("positions", .array maxDof f64), ("velocities", .array maxDof f64),
  ("accelerations", .array maxDof f64), ("effort", .array maxDof f64),
  ("time_from_start", duration)]

def jointTrajectory : Ty := record [
  ("header", header), ("joint_names_count", u32),
  (.hidden "joint_names", .array maxDof (text stringMaxLen)), ("points_count", u32),
  ("points", .array maxTrajectoryPoints jointTrajectoryPoint)]

def multiDOFJointTrajectoryPoint : Ty := record [
  ("count", u32), ("transforms", .array maxDof transform), ("velocities", .array maxDof twist),
  ("accelerations", .array maxDof twist), ("time_from_start", duration)]

def multiDOFJointTrajectory : Ty := record [
  ("header", header), ("joint_names_count", u32),
  (.hidden "joint_names", .array maxDof (text stringMaxLen)), ("points_count", u32),
  ("points", .array maxMultiDofTrajectoryPoints multiDOFJointTrajectoryPoint)]

def maxGoalStatuses : Nat := 8
def goalID : Ty := record [("stamp", time), (.hidden "id", text stringMaxLen)]

def goalStatus : Ty := record [
  ("goal_id", goalID), ("status", u8), (.hidden "text", text stringMaxLen)]

def goalStatusArray : Ty := record [
  ("header", header), ("status_list_count", u32),
  ("status_list", .array maxGoalStatuses goalStatus)]

end Py

/-- A type that both builds declare: the same fields in the same order, and a value of it fits one
datagram. -/
structure MessageType where
  name : String
  cpp : Cpp.Ty
  py : Py.Ty
  same : py.map Py.Attr.name = cpp
  fits : sizeof cpp ≤ kMaxPayloadBytes

def messageTypes : List MessageType := [
  ⟨"Bool", Cpp.bool, Py.bool, rfl, by decide⟩,
  ⟨"Byte", Cpp.byte, Py.byte, rfl, by decide⟩,
  ⟨"Char", Cpp.char, Py.char, rfl, by decide⟩,
  ⟨"Int8", Cpp.int8, Py.int8, rfl, by decide⟩,
  ⟨"Int16", Cpp.int16, Py.int16, rfl, by decide⟩,
  ⟨"Int32", Cpp.int32, Py.int32, rfl, by decide⟩,
  ⟨"Int64", Cpp.int64, Py.int64, rfl, by decide⟩,
  ⟨"UInt8", Cpp.uInt8, Py.uInt8, rfl, by decide⟩,
  ⟨"UInt16", Cpp.uInt16, Py.uInt16, rfl, by decide⟩,
  ⟨"UInt32", Cpp.uInt32, Py.uInt32, rfl, by decide⟩,
  ⟨"UInt64", Cpp.uInt64, Py.uInt64, rfl, by decide⟩,
  ⟨"Float32", Cpp.float32, Py.float32, rfl, by decide⟩,
  ⟨"Float64", Cpp.float64, Py.float64, rfl, by decide⟩,
  ⟨"Time", Cpp.time, Py.time, rfl, by decide⟩,
  ⟨"Duration", Cpp.duration, Py.duration, rfl, by decide⟩,
  ⟨"ColorRGBA", Cpp.colorRGBA, Py.colorRGBA, rfl, by decide⟩,
  ⟨"Header", Cpp.header, Py.header, rfl, by decide⟩,
  ⟨"String", Cpp.string, Py.string, rfl, by decide⟩,
  ⟨"Vector3", Cpp.vector3, Py.vector3, rfl, by decide⟩,
  ⟨"Point", Cpp.point, Py.point, rfl, by decide⟩,
  ⟨"Quaternion", Cpp.quaternion, Py.quaternion, rfl, by decide⟩,
  ⟨"Pose", Cpp.pose, Py.pose, rfl, by decide⟩,
  ⟨"Twist", Cpp.twist, Py.twist, rfl, by decide⟩,
  ⟨"Accel", Cpp.accel, Py.accel, rfl, by decide⟩,
  ⟨"Wrench", Cpp.wrench, Py.wrench, rfl, by decide⟩,
  ⟨"PoseStamped", Cpp.poseStamped, Py.poseStamped, rfl, by decide⟩,
  ⟨"TwistStamped", Cpp.twistStamped, Py.twistStamped, rfl, by decide⟩,
  ⟨"Point32", Cpp.point32, Py.point32, rfl, by decide⟩,
  ⟨"Transform", Cpp.transform, Py.transform, rfl, by decide⟩,
  ⟨"TransformStamped", Cpp.transformStamped, Py.transformStamped, rfl, by decide⟩,
  ⟨"PoseWithCovariance", Cpp.poseWithCovariance, Py.poseWithCovariance, rfl, by decide⟩,
  ⟨"TwistWithCovariance", Cpp.twistWithCovariance, Py.twistWithCovariance, rfl, by decide⟩,
  ⟨"PoseArray", Cpp.poseArray, Py.poseArray, rfl, by decide⟩,
  ⟨"Polygon", Cpp.polygon, Py.polygon, rfl, by decide⟩,
  ⟨"Imu", Cpp.imu, Py.imu, rfl, by decide⟩,
  ⟨"NavSatStatus", Cpp.navSatStatus, Py.navSatStatus, rfl, by decide⟩,
  ⟨"NavSatFix", Cpp.navSatFix, Py.navSatFix, rfl, by decide⟩,
  ⟨"MagneticField", Cpp.magneticField, Py.magneticField, rfl, by decide⟩,
  ⟨"Temperature", Cpp.temperature, Py.temperature, rfl, by decide⟩,
  ⟨"Range", Cpp.range, Py.range, rfl, by decide⟩,
  ⟨"RegionOfInterest", Cpp.regionOfInterest, Py.regionOfInterest, rfl, by decide⟩,
  ⟨"CameraInfo", Cpp.cameraInfo, Py.cameraInfo, rfl, by decide⟩,
  ⟨"PointField", Cpp.pointField, Py.pointField, rfl, by decide⟩,
  ⟨"PointCloud2", Cpp.pointCloud2, Py.pointCloud2, rfl, by decide⟩,
  ⟨"LaserScan", Cpp.laserScan, Py.laserScan, rfl, by decide⟩,
  ⟨"JointState", Cpp.jointState, Py.jointState, rfl, by decide⟩,
  ⟨"Odometry", Cpp.odometry, Py.odometry, rfl, by decide⟩,
  ⟨"MapMetaData", Cpp.mapMetaData, Py.mapMetaData, rfl, by decide⟩,
  ⟨"Path", Cpp.path, Py.path, rfl, by decide⟩,
  ⟨"OccupancyGrid", Cpp.occupancyGrid, Py.occupancyGrid, rfl, by decide⟩,
  ⟨"GridCells", Cpp.gridCells, Py.gridCells, rfl, by decide⟩,
  ⟨"KeyValue", Cpp.keyValue, Py.keyValue, rfl, by decide⟩,
  ⟨"DiagnosticStatus", Cpp.diagnosticStatus, Py.diagnosticStatus, rfl, by decide⟩,
  ⟨"DiagnosticArray", Cpp.diagnosticArray, Py.diagnosticArray, rfl, by decide⟩,
  ⟨"JointTrajectoryPoint", Cpp.jointTrajectoryPoint, Py.jointTrajectoryPoint, rfl, by decide⟩,
  ⟨"JointTrajectory", Cpp.jointTrajectory, Py.jointTrajectory, rfl, by decide⟩,
  ⟨"MultiDOFJointTrajectoryPoint", Cpp.multiDOFJointTrajectoryPoint,
    Py.multiDOFJointTrajectoryPoint, rfl, by decide⟩,
  ⟨"MultiDOFJointTrajectory", Cpp.multiDOFJointTrajectory, Py.multiDOFJointTrajectory, rfl,
    by decide⟩,
  ⟨"GoalID", Cpp.goalID, Py.goalID, rfl, by decide⟩,
  ⟨"GoalStatus", Cpp.goalStatus, Py.goalStatus, rfl, by decide⟩,
  ⟨"GoalStatusArray", Cpp.goalStatusArray, Py.goalStatusArray, rfl, by decide⟩]

end Relink.Message
